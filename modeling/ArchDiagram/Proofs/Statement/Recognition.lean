import ArchDiagram.Proofs.Statement.Reads
import ArchDiagram.Proofs.Statement.Role

/-! The parser reads a list of tokens exactly if the grammar writes statements with it, and it finds
these statements. What was read is written that way, by induction along the parser; what is written
is read, by induction on the derivation, for any tokens that may follow. -/
namespace ArchDiagram

namespace Parser
open Grammar

variable {α β : Type}

theorem bind_eq_done_iff {p : Parser α} {f : α → Parser β} {ts : List Token} {b : β}
    {rest : List Token} : ((p >>= f) ts).value = .done b rest ↔
      ∃ a mid, (p ts).value = .done a mid ∧ (f a mid).value = .done b rest := by
  change (Parser.bind p f ts).value = _ ↔ _
  rw [Parser.bind]
  cases hv : (p ts).value with
  | stop cause mid => simp
  | done a mid => simp

@[simp] theorem pure_eq_done_iff {a b : α} {ts rest : List Token} :
    ((Pure.pure a : Parser α) ts).value = .done b rest ↔ a = b ∧ ts = rest := by
  change Outcome.done a ts = .done b rest ↔ _
  simp

theorem next_eq_done_iff {what : Expectation} {accept : Token → Option α} {ts : List Token} {a : α}
    {rest : List Token} : (next what accept ts).value = .done a rest ↔
      ∃ t, ts = t :: rest ∧ accept t = some a := by
  cases ts with
  | nil => simp [next]
  | cons t ts =>
    rw [next]
    cases ht : accept t with
    | none => simp [ht]
    | some b => simp [ht, and_comm]

theorem identifier_eq_done_iff {ts : List Token} {x : Located Id} {rest : List Token} :
    (identifier ts).value = .done x rest ↔ ∃ t, ts = t :: rest ∧ IsName t ∧ t.located = x := by
  rw [identifier, next_eq_done_iff]
  simp [isName_iff]

theorem punctuation_eq_done_iff {kind : TokenKind} {what : Expectation} {ts : List Token} {x : Span}
    {rest : List Token} : (punctuation kind what ts).value = .done x rest ↔
      ∃ t, ts = t :: rest ∧ t.kind = kind ∧ t.span = x := by
  rw [punctuation, next_eq_done_iff]
  simp

theorem relationLabel_eq_done_iff {ts : List Token} {label : Option (Located String)}
    {rest : List Token} : (relationLabel ts).value = .done label rest ↔
      label = none ∧ ts = rest ∧ ¬ ColonAhead ts ∨
        ∃ c l, ts = c :: l :: rest ∧ c.kind = .colon ∧ l.kind = .string ∧ label = some l.located := by
  cases ts with
  | nil =>
    constructor
    · rintro ⟨⟩
      exact Or.inl ⟨rfl, rfl, not_colonAhead_nil⟩
    · rintro (⟨rfl, rfl, -⟩ | ⟨c, l, ⟨⟩, -⟩)
      rfl
  | cons c ts =>
    rw [relationLabel]
    split_ifs with hc
    · rw [next_eq_done_iff]
      constructor
      · rintro ⟨l, rfl, hl⟩
        split_ifs at hl with hs
        exact Or.inr ⟨c, l, rfl, hc, hs, (Option.some.inj hl).symm⟩
      · rintro (⟨-, -, hn⟩ | ⟨_, l, ⟨⟩, -, hs, rfl⟩)
        · exact absurd (colonAhead_cons.mpr hc) hn
        · exact ⟨l, rfl, if_pos hs⟩
    · constructor
      · rintro ⟨⟩
        exact Or.inl ⟨rfl, rfl, mt colonAhead_cons.mp hc⟩
      · rintro (⟨rfl, rfl, -⟩ | ⟨_, l, ⟨⟩, hc', -⟩)
        · rfl
        · exact absurd hc' hc

/-- The parser reads attributes until none is ahead. -/
theorem attributes_written {ts rest : List Token} {as : List Attribute}
    (h : (attributes ts).value = .done as rest) :
    ∃ used, ts = used ++ rest ∧ Attributes used (as.map Attribute.pair) ∧ ¬ AttributeAhead rest := by
  rw [attributes_eq_done_iff] at h
  induction h with
  | nil behind => exact ⟨[], rfl, .nil, behind⟩
  | @cons n e v _ _ _ name equals value _ ih =>
    obtain ⟨used, rfl, hu, hrest⟩ := ih
    exact ⟨n :: e :: v :: used, rfl, .cons name equals value hu, hrest⟩

/-- What was read in front of `rest` is written inside `depth` containers, as far as that goes. -/
def Derived (depth : ℕ) (ts : List Token) (s : Statement) (rest : List Token) : Prop :=
  ∃ used, ts = used ++ rest ∧ Written depth used s.phrase ∧ EndsBefore rest s.phrase

/-- All that `p` reads is derived inside `depth` containers. -/
def Obeys (depth : ℕ) (p : Parser Statement) : Prop :=
  ∀ ts s rest, (p ts).value = .done s rest → Derived depth ts s rest

/-- The items of a block make up its content. -/
theorem content_items {kind : BlockKind} {nested : Parser Statement} {depth : ℕ}
    (hn : kind = .container → Obeys depth nested) {ts rest : List Token} {b : Block}
    (h : (items kind nested ts).value = .done b rest) :
    ∃ used, ts = used ++ rest ∧ Content kind depth used (b.properties.map Property.pair)
      (Statement.phrases b.body) := by
  rw [items_eq_done_iff] at h
  induction h with
  | @close t _ role => exact ⟨[t], rfl, .close (role_eq_close_iff.mp role)⟩
  | @skipped t _ _ _ role _ ih =>
    obtain ⟨used, rfl, hu⟩ := ih
    exact ⟨t :: used, rfl, .stray (role_eq_skipped_iff.mp role) hu⟩
  | @property t v _ _ _ rest role value _ ih =>
    obtain ⟨used, rfl, hu⟩ := ih
    obtain ⟨hf, hname, -⟩ := role_eq_property_iff.mp role
    refine ⟨t :: v :: used, rfl, .property hf hname (accepts_iff.mp value) ?_ hu⟩
    intro hk ht hahead
    exact not_attributeAhead_of_role role hk ht (accepts_iff.mp value) (hahead.append rest)
  | statement role read _ _ ih =>
    obtain ⟨rfl, -⟩ := role_eq_statement_iff.mp role
    obtain ⟨first, hfirst, hs, hends⟩ := hn rfl _ _ _ read
    obtain ⟨used, rfl, hu⟩ := ih
    refine ⟨first ++ used, by rw [hfirst, List.append_assoc], .statement hs ?_ hends.of_append hu⟩
    exact ne_style_of_role role hfirst hs hends

lemma style_eq_done {start : Span} {ts rest : List Token} {s : Statement}
    (h : (style start ts).value = .done s rest) :
    ∃ n us as, ts = n :: us ∧ IsName n ∧ (attributes us).value = .done as rest ∧
      s = .style (start.union (lastValue n.span as)) n.located as := by
  obtain ⟨name, us, hname, h1⟩ := bind_eq_done_iff.mp h
  obtain ⟨n, rfl, hn, rfl⟩ := identifier_eq_done_iff.mp hname
  obtain ⟨as, mid, ha, hs⟩ := bind_eq_done_iff.mp h1
  obtain ⟨rfl, rfl⟩ := pure_eq_done_iff.mp hs
  exact ⟨n, us, as, rfl, hn, ha, rfl⟩

lemma relation_eq_done {start : Span} {ts rest : List Token} {s : Statement}
    (h : (relation start ts).value = .done s rest) :
    ∃ a r b us label, ts = a :: r :: b :: us ∧ IsName a ∧ r.kind = .arrow ∧ IsName b ∧
      (relationLabel us).value = .done label rest ∧
      s = .relation (start.union (label.elim b.span Located.span)) a.located b.located label := by
  obtain ⟨source, mid, hsource, h1⟩ := bind_eq_done_iff.mp h
  obtain ⟨a, rfl, ha, rfl⟩ := identifier_eq_done_iff.mp hsource
  obtain ⟨_, mid, harrow, h2⟩ := bind_eq_done_iff.mp h1
  obtain ⟨r, rfl, hr, -⟩ := punctuation_eq_done_iff.mp harrow
  obtain ⟨target, us, htarget, h3⟩ := bind_eq_done_iff.mp h2
  obtain ⟨b, rfl, hb, rfl⟩ := identifier_eq_done_iff.mp htarget
  obtain ⟨label, mid, hlabel, hs⟩ := bind_eq_done_iff.mp h3
  obtain ⟨rfl, rfl⟩ := pure_eq_done_iff.mp hs
  exact ⟨a, r, b, us, label, rfl, ha, hr, hb, hlabel, rfl⟩

/-- The statements with a block: `make` builds one from its id and its block. -/
lemma blockStatement_eq_done {kind : BlockKind} {nested : Parser Statement}
    {make : Located Id → Block → Statement} {ts rest : List Token} {s : Statement}
    (h : ((do let id ← identifier; let b ← block kind nested; return make id b :
      Parser Statement) ts).value = .done s rest) :
    ∃ n o us b, ts = n :: o :: us ∧ IsName n ∧ o.kind = .leftBrace ∧
      (items kind nested us).value = .done b rest ∧ make n.located b = s := by
  obtain ⟨id, mid, hid, hblock⟩ := bind_eq_done_iff.mp h
  obtain ⟨n, rfl, hname, rfl⟩ := identifier_eq_done_iff.mp hid
  obtain ⟨b, mid, hb, hs⟩ := bind_eq_done_iff.mp hblock
  obtain ⟨_, us, hopen, hitems⟩ := bind_eq_done_iff.mp hb
  obtain ⟨o, rfl, ho, -⟩ := punctuation_eq_done_iff.mp hopen
  obtain ⟨hmake, rfl⟩ := pure_eq_done_iff.mp hs
  exact ⟨n, o, us, b, rfl, hname, ho, hitems, hmake⟩

lemma content_blockStatement {kind : BlockKind} {nested : Parser Statement} (depth : ℕ)
    (hn : kind = .container → Obeys depth nested) (make : Located Id → Block → Statement)
    {ts : List Token} {s : Statement} {rest : List Token}
    (h : ((do let id ← identifier; let b ← block kind nested; return make id b :
      Parser Statement) ts).value = .done s rest) :
    ∃ n o used b, ts = n :: o :: used ++ rest ∧ IsName n ∧ o.kind = .leftBrace ∧
      Content kind depth used (b.properties.map Property.pair) (Statement.phrases b.body) ∧
      make n.located b = s := by
  obtain ⟨n, o, us, b, rfl, hname, ho, hitems, hmake⟩ := blockStatement_eq_done h
  obtain ⟨used, rfl, hu⟩ := content_items hn hitems
  exact ⟨n, o, used, b, rfl, hname, ho, hu, hmake⟩

section
variable {depth : ℕ} {k : Token} {ts : List Token} {s : Statement} {rest : List Token}

lemma derived_layout (hk : k.kind = .keyword .layout)
    (h : (layout k.span ts).value = .done s rest) : Derived depth (k :: ts) s rest := by
  obtain ⟨as, mid, ha, hs⟩ := bind_eq_done_iff.mp h
  obtain ⟨used, rfl, hu, hend⟩ := attributes_written ha
  obtain ⟨rfl, rfl⟩ := pure_eq_done_iff.mp hs
  exact ⟨k :: used, rfl, .layout hk hu, hend⟩

lemma derived_style (hk : k.kind = .keyword .style)
    (h : (style k.span ts).value = .done s rest) : Derived depth (k :: ts) s rest := by
  obtain ⟨n, us, as, rfl, hn, ha, rfl⟩ := style_eq_done h
  obtain ⟨used, rfl, hu, hend⟩ := attributes_written ha
  exact ⟨k :: n :: used, rfl, .style hk hn hu, hend⟩

lemma derived_relation (hk : k.kind = .keyword .relation)
    (h : (relation k.span ts).value = .done s rest) : Derived depth (k :: ts) s rest := by
  obtain ⟨a, r, b, us, label, rfl, ha, hr, hb, hlabel, rfl⟩ := relation_eq_done h
  obtain ⟨rfl, rfl, hend⟩ | ⟨c, l, rfl, hc, hl, rfl⟩ := relationLabel_eq_done_iff.mp hlabel
  · exact ⟨[k, a, r, b], rfl, .relation hk ha hr hb, hend⟩
  · exact ⟨[k, a, r, b, c, l], rfl, .labelled hk ha hr hb hc hl, trivial⟩

end

theorem obeys_dispatch {inner : Option (Parser Statement)} {depth : ℕ}
    (hn : ∀ nested, inner = some nested → depth < maxNesting ∧ Obeys (depth + 1) nested) :
    Obeys depth (dispatch inner) := by
  intro ts s rest
  cases ts with
  | nil => rintro ⟨⟩
  | cons k ts =>
    simp only [dispatch]
    cases hk : k.kind with
    | keyword word =>
      cases word with
      | layout => exact derived_layout hk
      | style => exact derived_style hk
      | component =>
        intro h
        obtain ⟨n, o, used, b, rfl, hname, ho, hu, rfl⟩ :=
          content_blockStatement depth (by simp) _ h
        rw [hu.body_eq_nil (by simp)] at hu
        exact ⟨k :: n :: o :: used, rfl, .component hk hname ho hu, trivial⟩
      | container =>
        cases inner with
        | none => rintro ⟨⟩
        | some nested =>
          intro h
          obtain ⟨hroom, hnested⟩ := hn nested rfl
          obtain ⟨n, o, used, b, rfl, hname, ho, hu, rfl⟩ :=
            content_blockStatement _ (fun _ => hnested) _ h
          exact ⟨k :: n :: o :: used, rfl, .container hk hroom hname ho hu, trivial⟩
      | relation => exact derived_relation hk
      | note =>
        intro h
        obtain ⟨n, o, used, b, rfl, hname, ho, hu, rfl⟩ :=
          content_blockStatement depth (by simp) _ h
        rw [hu.body_eq_nil (by simp)] at hu
        exact ⟨k :: n :: o :: used, rfl, .note hk hname ho hu, trivial⟩
    | _ => rintro ⟨⟩

end Parser

namespace Grammar

theorem Attributes.read {ts : List Token} {as : List (String × String)} (h : Attributes ts as)
    {rest : List Token} (hrest : ¬ AttributeAhead rest) :
    ∃ found, (Parser.attributes (ts ++ rest)).value = .done found rest ∧
      found.map Attribute.pair = as := by
  induction h with
  | nil => exact ⟨[], Parser.attributes_of_not_ahead hrest, rfl⟩
  | cons name equals value _ ih =>
    obtain ⟨found, hf, rfl⟩ := ih
    have hmore := Parser.attributes_eq_done_iff.mp hf
    exact ⟨_, Parser.attributes_eq_done_iff.mpr (.cons name equals value hmore), rfl⟩

end Grammar

namespace Parser

/-- A statement is read by the parser of its keyword. -/
lemma statement_keyword {room : ℕ} {k : Token} {ts : List Token} {word : Keyword}
    (hk : k.kind = .keyword word) : (statement room (k :: ts)).value =
      match word with
      | .layout => (layout k.span ts).value
      | .style => (style k.span ts).value
      | .component => (component k.span ts).value
      | .container =>
        match room with
        | 0 => .stop .tooDeep (k :: ts)
        | room + 1 => (container (statement room) k.span ts).value
      | .relation => (relation k.span ts).value
      | .note => (note k.span ts).value := by
  cases room <;> cases word <;> simp only [statement, dispatch, hk]

open Grammar

lemma read_blockStatement {kind : BlockKind} {nested : Parser Statement} {n o : Token}
    {ts rest : List Token} {b : Block} (make : Located Id → Block → Statement) (hn : IsName n)
    (ho : o.kind = .leftBrace) (hb : ItemsRun kind nested (ts ++ rest) b rest) :
    ((do let id ← identifier; let b ← block kind nested; return make id b :
      Parser Statement) (n :: o :: ts ++ rest)).value = .done (make n.located b) rest := by
  refine bind_eq_done_iff.mpr ⟨n.located, o :: ts ++ rest, ?_, ?_⟩
  · exact identifier_eq_done_iff.mpr ⟨n, rfl, hn, rfl⟩
  refine bind_eq_done_iff.mpr ⟨b, rest, ?_, pure_eq_done_iff.mpr ⟨rfl, rfl⟩⟩
  exact bind_eq_done_iff.mpr ⟨o.span, ts ++ rest, punctuation_eq_done_iff.mpr ⟨o, rfl, ho, rfl⟩,
    items_eq_done_iff.mpr hb⟩

lemma read_relation {a r b : Token} {ts : List Token} {label : Option (Located String)}
    {rest : List Token} (start : Span) (ha : IsName a) (hr : r.kind = .arrow) (hb : IsName b)
    (hlabel : (relationLabel ts).value = .done label rest) :
    (relation start (a :: r :: b :: ts)).value = .done (.relation
      (start.union (label.elim b.span Located.span)) a.located b.located label) rest := by
  refine bind_eq_done_iff.mpr ⟨_, _, identifier_eq_done_iff.mpr ⟨a, rfl, ha, rfl⟩, ?_⟩
  refine bind_eq_done_iff.mpr ⟨_, _, punctuation_eq_done_iff.mpr ⟨r, rfl, hr, rfl⟩, ?_⟩
  refine bind_eq_done_iff.mpr ⟨_, _, identifier_eq_done_iff.mpr ⟨b, rfl, hb, rfl⟩, ?_⟩
  exact bind_eq_done_iff.mpr ⟨_, _, hlabel, pure_eq_done_iff.mpr ⟨rfl, rfl⟩⟩

end Parser

namespace Grammar
open ArchDiagram.Parser

lemma styleAhead_of_written {depth : ℕ} {k : Token} {us : List Token} {s : Phrase}
    (h : Written depth (k :: us) s) (hk : k.kind = .keyword .style) (hs : ∀ name, s ≠ .style name [])
    (rest : List Token) : styleAhead (us ++ rest) = true := by
  cases h with
  | @style _ _ n _ _ _ hn ha =>
    cases ha with
    | nil => exact absurd rfl (hs n.value)
    | cons hname he hv ha => exact styleAhead_cons.mpr ⟨hn, attributeAhead_cons_cons.mpr ⟨hname, he⟩⟩
  | layout hk' | relation hk' | labelled hk' | component hk' | note hk' | container hk' =>
    simp [hk] at hk'

mutual

/-- What is written is read, whatever follows it. -/
theorem Written.read {depth : ℕ} {used : List Token} {s : Phrase} :
    Written depth used s → ∀ room, depth + room = maxNesting → ∀ rest, EndsBefore rest s →
      ∃ found, (statement room (used ++ rest)).value = .done found rest ∧ found.phrase = s
  | .layout (k := k) hk ha, room, _, rest, hrest => by
    obtain ⟨as, has, rfl⟩ := ha.read hrest
    exact ⟨.layout (k.span.union (lastValue k.span as)) as,
      (statement_keyword hk).trans (bind_eq_done_iff.mpr ⟨as, rest, has, rfl⟩), rfl⟩
  | .style (k := k) (n := n) hk hn ha, room, _, rest, hrest => by
    obtain ⟨as, has, rfl⟩ := ha.read hrest
    refine ⟨.style (k.span.union (lastValue n.span as)) n.located as,
      (statement_keyword hk).trans ?_, rfl⟩
    refine bind_eq_done_iff.mpr ⟨_, _, identifier_eq_done_iff.mpr ⟨n, rfl, hn, rfl⟩, ?_⟩
    exact bind_eq_done_iff.mpr ⟨as, rest, has, rfl⟩
  | .relation (k := k) hk ha hr hb, room, _, rest, hrest =>
    have hlabel := relationLabel_eq_done_iff.mpr (Or.inl ⟨rfl, rfl, hrest⟩)
    ⟨_, (statement_keyword hk).trans (read_relation k.span ha hr hb hlabel), rfl⟩
  | .labelled (k := k) (c := c) (l := l) hk ha hr hb hc hl, room, _, rest, _ =>
    have hlabel := relationLabel_eq_done_iff.mpr (Or.inr ⟨c, l, rfl, hc, hl, rfl⟩)
    ⟨_, (statement_keyword hk).trans (read_relation k.span ha hr hb hlabel), rfl⟩
  | .component (n := n) hk hn ho hc, room, _, rest, _ => by
    obtain ⟨b, hb, rfl, -⟩ := hc.read (fail .unknownStatement) (by simp) rest
    exact ⟨.component _ n.located b.properties,
      (statement_keyword hk).trans (read_blockStatement _ hn ho hb), rfl⟩
  | .note (n := n) hk hn ho hc, room, _, rest, _ => by
    obtain ⟨b, hb, rfl, -⟩ := hc.read (fail .unknownStatement) (by simp) rest
    exact ⟨.note _ n.located b.properties,
      (statement_keyword hk).trans (read_blockStatement _ hn ho hb), rfl⟩
  | .container (n := n) hk hd hn ho hc, room, hroom, rest, _ => by
    obtain ⟨room, rfl⟩ : ∃ r, room = r + 1 := ⟨room - 1, by omega⟩
    obtain ⟨b, hb, rfl, rfl⟩ := hc.read (statement room) (fun _ => ⟨room, by omega, rfl⟩) rest
    exact ⟨.container _ n.located b.properties b.body,
      (statement_keyword hk).trans (read_blockStatement _ hn ho hb), rfl⟩

theorem Content.read {kind : BlockKind} {depth : ℕ} {ts : List Token}
    {ps : List (Field × String)} {body : List Phrase} :
    Content kind depth ts ps body → ∀ nested : Parser Statement,
      (kind = .container → ∃ room, depth + room = maxNesting ∧ nested = statement room) →
      ∀ rest, ∃ b, ItemsRun kind nested (ts ++ rest) b rest ∧
        b.properties.map Property.pair = ps ∧ Statement.phrases b.body = body
  | .close ht, nested, hn, rest => ⟨_, .close (role_eq_close_iff.mpr ht), rfl, rfl⟩
  | .property (t := t) (v := v) (f := f) hf hname hv hstyle hc, nested, hn, rest => by
    obtain ⟨b, hb, rfl, rfl⟩ := hc.read nested hn rest
    refine ⟨b.addProperty ⟨⟨f, t.span⟩, v.located⟩, .property ?_ (accepts_iff.mpr hv) hb, rfl, rfl⟩
    refine role_eq_property_iff.mpr ⟨hf, hname, ?_⟩
    intro hk ht
    rw [Bool.eq_false_iff]
    intro hahead
    exact hstyle hk ht (hc.attributeAhead_of_append (styleAhead_cons.mp hahead).2)
  | .statement hw hne hends hc, nested, hn, rest => by
    obtain ⟨room, hroom, rfl⟩ := hn rfl
    obtain ⟨b, hb, rfl, rfl⟩ := hc.read _ hn rest
    obtain ⟨found, hfound, rfl⟩ := hw.read room hroom _ (hends.append_of_content hc rest)
    obtain ⟨k, us, word, rfl, hk⟩ := hw.exists_keyword
    refine ⟨b.addStatement found, ?_, rfl, rfl⟩
    rw [List.append_assoc]
    refine .statement ?_ hfound (by simp) hb
    refine role_eq_statement_iff.mpr ⟨rfl, word, hk, ?_⟩
    rintro rfl
    exact styleAhead_of_written hw hk hne _
  | .stray ht hc, nested, hn, rest => by
    obtain ⟨b, hb, rfl, rfl⟩ := hc.read nested hn rest
    exact ⟨b, .skipped (role_eq_skipped_iff.mpr ht) hb, rfl, rfl⟩

end

/-- A statement ends where the next one starts, or at the end of the document. -/
lemma Document.endsBefore {ts : List Token} {ss : List Phrase} (h : Document ts ss) (s : Phrase) :
    EndsBefore ts s := by
  cases h with
  | nil => exact endsBefore_nil s
  | cons hw =>
    obtain ⟨k, us, word, rfl, hk⟩ := hw.exists_keyword
    exact endsBefore_cons (by simp [IsName, hk]) (by simp [hk]) s

theorem Document.read {ts : List Token} {ss : List Phrase} (h : Document ts ss) :
    ∃ found, SequenceRun (statement maxNesting) ts found ∧ Statement.phrases found = ss := by
  induction h with
  | nil => exact ⟨[], .nil, rfl⟩
  | cons hw hrest ih =>
    obtain ⟨found, hfound, rfl⟩ := ih
    obtain ⟨one, hone, rfl⟩ := hw.read maxNesting (by simp) _ (hrest.endsBefore _)
    obtain ⟨k, us, word, rfl, hk⟩ := hw.exists_keyword
    exact ⟨one :: found, .cons hone (by simp) hfound, rfl⟩

end Grammar

namespace Parser
open Grammar

theorem obeys_statement {room depth : ℕ} (h : depth + room = maxNesting) :
    Obeys depth (statement room) := by
  induction room generalizing depth with
  | zero => exact obeys_dispatch (by simp)
  | succ room ih =>
    refine obeys_dispatch ?_
    rintro nested ⟨⟩
    exact ⟨by omega, ih (by omega)⟩

theorem SequenceRun.document {ts : List Token} {ss : List Statement}
    (h : SequenceRun (statement maxNesting) ts ss) : Grammar.Document ts (Statement.phrases ss) := by
  induction h with
  | nil => exact .nil
  | cons read _ _ ih =>
    obtain ⟨used, hused, hs, -⟩ := obeys_statement (Nat.zero_add _) _ _ _ read
    rw [hused]
    exact .cons hs ih

end Parser

/-- The parser finds exactly the statements that the grammar writes with the tokens. -/
theorem parseStatements_finds_iff_document (ts : List Token) (ss : List Phrase) :
    (∃ found, (parseStatements ts).outcome = .ok found ∧ Statement.phrases found = ss) ↔
      Grammar.Document ts ss := by
  constructor
  · rintro ⟨found, hfound, rfl⟩
    exact (parseStatements_eq_ok_iff.mp hfound).document
  · intro h
    obtain ⟨found, hfound, rfl⟩ := h.read
    exact ⟨found, parseStatements_eq_ok_iff.mpr hfound, rfl⟩

end ArchDiagram
