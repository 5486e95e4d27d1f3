import ArchDiagram.Proofs.Statement.Stability

/-! Blocks are open to what they do not know. Where an item of a component or an annotation could
begin, one more token without a meaning there changes nothing: the block skips it, and the keyword
in front of the block ends whatever is looked ahead to from outside. -/
namespace ArchDiagram

/-- The keyword of the statements with such a block. -/
def BlockKind.keyword : BlockKind → Keyword
  | component => .component
  | container => .container
  | note => .note

namespace Grammar

/-- Complete items of a block: properties with their values, and skipped tokens. -/
inductive Items (kind : BlockKind) : List Token → Prop
  | nil : Items kind []
  | property {f t v ts} (known : f ∈ kind.fields) (name : Names f t) (value : IsFieldValue f v)
      (rest : Items kind ts) : Items kind (t :: v :: ts)
  | stray {t ts} (stray : IsStray kind t) (rest : Items kind ts) : Items kind (t :: ts)

/-- The tokens end inside a block, right behind its opening brace or behind a complete item. -/
def EndsInBlock (kind : BlockKind) (front : List Token) : Prop :=
  ∃ before k n o items, front = before ++ k :: n :: o :: items ∧ k.kind = .keyword kind.keyword ∧
    IsName n ∧ o.kind = .leftBrace ∧ Items kind items

lemma opensBlock_keyword (kind : BlockKind) : kind.keyword.opensBlock = true := by
  cases kind <;> rfl

lemma IsValue.ne_keyword {name : String} {t : Token} (h : IsValue name t) (word : Keyword) :
    t.kind ≠ .keyword word := by
  intro ht
  simp [IsValue, ht] at h

lemma IsFieldValue.ne_keyword {f : Field} {t : Token} (h : IsFieldValue f t) (word : Keyword) :
    t.kind ≠ .keyword word := by
  rw [IsFieldValue] at h
  split_ifs at h
  · exact h.ne_keyword word
  · exact h.ne_keyword word

lemma Names.ne_keyword {f : Field} {t : Token} (h : Names f t) {word : Keyword}
    (hword : word.opensBlock = true) : t.kind ≠ .keyword word := by
  rintro ht
  obtain ⟨hkind, -⟩ | ⟨hkind, -⟩ := h
  · simp [hkind] at ht
  · obtain rfl : Keyword.style = word := by simpa [hkind] using ht
    cases hword

lemma Attributes.ne_keyword {ts : List Token} {as : List (String × String)} (h : Attributes ts as)
    (word : Keyword) : ∀ t ∈ ts, t.kind ≠ .keyword word := by
  induction h with
  | nil => simp
  | cons hn he hv _ ih =>
    intro t ht
    simp only [List.mem_cons] at ht
    obtain rfl | rfl | rfl | ht := ht
    · exact hn.ne_keyword word
    · simp [he]
    · exact hv.ne_keyword word
    · exact ih t ht

/-- No other block opens in the block of a component or an annotation. -/
lemma Content.ne_keyword {kind : BlockKind} {depth : ℕ} {ts : List Token}
    {ps : List (Field × String)} {body : List Phrase} (hkind : kind ≠ .container) {word : Keyword}
    (hword : word.opensBlock = true) :
    Content kind depth ts ps body → ∀ t ∈ ts, t.kind ≠ .keyword word
  | .close hclose => by simp [hclose]
  | .property _ hname hv _ hc => by
    simp only [List.forall_mem_cons]
    exact ⟨hname.ne_keyword hword, hv.ne_keyword word, hc.ne_keyword hkind hword⟩
  | .statement .. => absurd rfl hkind
  | .stray hs hc => by
    simp only [List.forall_mem_cons]
    exact ⟨hs.not_block word (opensBlock_iff.mp hword), hc.ne_keyword hkind hword⟩

variable {kind : BlockKind} {x : Token}

/-- Between two items of a block a token can be skipped. -/
lemma Items.insert (hkind : kind ≠ .container) (hx : IsStray kind x) {items : List Token}
    (h : Items kind items) {depth : ℕ} {back rest : List Token} :
    ∀ {ts ps body}, Content kind depth ts ps body → ts ++ rest = items ++ back →
      ∃ ts', ts' ++ rest = items ++ x :: back ∧ Content kind depth ts' ps body := by
  induction h with
  | nil =>
    intro ts ps body hc hts
    exact ⟨x :: ts, congrArg (x :: ·) hts, .stray hx hc⟩
  | @property f t v items hf hname hv _ ih =>
    intro ts ps body hc hts
    cases hc with
    | close hclose =>
      obtain ⟨rfl, -⟩ := List.cons.inj hts
      obtain ⟨hkind, -⟩ | ⟨hkind, -⟩ := hname <;> simp [hclose] at hkind
    | property hf' hname' hv' hstyle hc =>
      obtain ⟨rfl, htail⟩ := List.cons.inj hts
      obtain ⟨rfl, hmore⟩ := List.cons.inj htail
      obtain ⟨ts', hts', hc'⟩ := ih hc hmore
      exact ⟨_ :: _ :: ts', congrArg (_ :: _ :: ·) hts',
        .property hf' hname' hv' (fun h => absurd h hkind) hc'⟩
    | statement => exact absurd rfl hkind
    | stray hs hc =>
      obtain ⟨rfl, -⟩ := List.cons.inj hts
      exact absurd hname (hs.not_property f hf)
  | @stray t items hs _ ih =>
    intro ts ps body hc hts
    cases hc with
    | close hclose =>
      obtain ⟨rfl, -⟩ := List.cons.inj hts
      exact absurd hclose hs.not_close
    | property hf hname =>
      obtain ⟨rfl, -⟩ := List.cons.inj hts
      exact absurd hname (hs.not_property _ hf)
    | statement => exact absurd rfl hkind
    | stray hs' hc =>
      obtain ⟨rfl, hmore⟩ := List.cons.inj hts
      obtain ⟨ts', hts', hc'⟩ := ih hc hmore
      exact ⟨_ :: ts', congrArg (_ :: ·) hts', .stray hs' hc'⟩

/-- `ts'` has one more token than `ts`, the item `x` of a block whose keyword stands in front. -/
def Insertion (kind : BlockKind) (x : Token) (ts ts' : List Token) : Prop :=
  ∃ n o items back, ts = n :: o :: items ++ back ∧ ts' = n :: o :: items ++ x :: back ∧
    Items kind items

lemma Insertion.content (hkind : kind ≠ .container) (hx : IsStray kind x) {n o : Token} {depth : ℕ}
    {ts rest tail : List Token} {ps : List (Field × String)} {body : List Phrase}
    (h : Insertion kind x (n :: o :: ts ++ rest) tail) (hc : Content kind depth ts ps body) :
    ∃ ts', tail = n :: o :: ts' ++ rest ∧ Content kind depth ts' ps body := by
  obtain ⟨n', o', items, back, hts, rfl, hitems⟩ := h
  obtain ⟨rfl, htail⟩ := List.cons.inj hts
  obtain ⟨rfl, hmore⟩ := List.cons.inj htail
  obtain ⟨ts', hts', hc'⟩ := hitems.insert hkind hx hc hmore
  exact ⟨ts', congrArg (n :: o :: ·) hts'.symm, hc'⟩

section
variable {t k : Token} {ts used before more : List Token}

lemma append_eq_append_cons (h : used ++ ts = before ++ k :: more) :
    (∃ inner, used = before ++ k :: inner ∧ more = inner ++ ts) ∨
      ∃ front, before = used ++ front ∧ ts = front ++ k :: more := by
  obtain ⟨front, hbefore, hts⟩ | ⟨inner, hused, hcons⟩ := List.append_eq_append_iff.mp h
  · exact Or.inr ⟨front, hbefore, hts⟩
  · cases inner with
    | nil => exact Or.inr ⟨[], by simpa using hused.symm, by simpa using hcons.symm⟩
    | cons t inner =>
      obtain ⟨rfl, hmore⟩ := List.cons.inj hcons
      exact Or.inl ⟨inner, hused, hmore⟩

lemma cons_eq_append_cons (h : t :: ts = before ++ k :: more) (hne : t.kind ≠ k.kind) :
    ∃ front, before = t :: front ∧ ts = front ++ k :: more := by
  cases before with
  | nil =>
    obtain ⟨rfl, -⟩ := List.cons.inj h
    exact absurd rfl hne
  | cons b before =>
    obtain ⟨rfl, hts⟩ := List.cons.inj h
    exact ⟨before, rfl, hts⟩

lemma ne_append_cons (hts : ∀ u ∈ ts, u.kind ≠ k.kind) : ts ≠ before ++ k :: more := by
  rintro rfl
  exact hts k (by simp) rfl

/-- The keyword of a block is none of its other tokens. -/
lemma before_eq_nil (h : t :: ts = before ++ k :: more) (hts : ∀ u ∈ ts, u.kind ≠ k.kind) :
    before = [] ∧ t = k ∧ ts = more := by
  cases before with
  | nil =>
    obtain ⟨rfl, rfl⟩ := List.cons.inj h
    exact ⟨rfl, rfl, rfl⟩
  | cons b before =>
    obtain ⟨rfl, rfl⟩ := List.cons.inj h
    exact absurd rfl (hts k (by simp))

end

/-- The other statements hold no block at all. -/
lemma ne_of_flat {k t : Token} (hk : k.kind = .keyword kind.keyword) {word : Keyword}
    (hword : word.opensBlock = false) (ht : t.kind = .keyword word) : t.kind ≠ k.kind := by
  rw [ht, hk]
  rintro ⟨⟩
  simp [opensBlock_keyword] at hword

section
variable {k : Token}

/-- A component or an annotation holds no other block than its own. -/
lemma Content.insert (hkind : kind ≠ .container) (hx : IsStray kind x)
    (hk : k.kind = .keyword kind.keyword) {kind' : BlockKind} {depth : ℕ} {k' n o : Token}
    {ts : List Token} {ps : List (Field × String)} {body : List Phrase}
    (hc : Content kind' depth ts ps body) (hkind' : kind' ≠ .container)
    (hk' : k'.kind = .keyword kind'.keyword) (hn : IsName n) (ho : o.kind = .leftBrace)
    {before more rest tail : List Token} (hsplit : k' :: n :: o :: ts = before ++ k :: more)
    (hi : Insertion kind x (more ++ rest) tail) :
    ∃ ts', before = [] ∧ k' = k ∧ tail = n :: o :: ts' ++ rest ∧
      Content kind' depth ts' ps body := by
  have hword := opensBlock_keyword kind
  obtain ⟨rfl, rfl, rfl⟩ := before_eq_nil hsplit (by
    rw [hk]
    simp only [List.forall_mem_cons]
    exact ⟨hn.ne_keyword _, by simp [ho], hc.ne_keyword hkind' hword⟩)
  obtain rfl : kind = kind' := by
    rw [hk] at hk'
    cases kind <;> cases kind' <;> simp_all [BlockKind.keyword]
  obtain ⟨ts', htail, hc'⟩ := hi.content hkind hx hc
  exact ⟨ts', rfl, rfl, htail, hc'⟩

mutual

/-- A statement with the block in it can take the token, whatever follows the statement. -/
theorem Written.insert (hkind : kind ≠ .container) (hx : IsStray kind x)
    (hk : k.kind = .keyword kind.keyword) {depth : ℕ} {used : List Token} {s : Phrase} :
    Written depth used s → ∀ {before more rest tail}, used = before ++ k :: more →
      Insertion kind x (more ++ rest) tail →
        ∃ more', tail = more' ++ rest ∧ Written depth (before ++ k :: more') s
  | .layout hk' ha, before, more, rest, tail, hsplit, hi => by
    refine absurd hsplit (ne_append_cons ?_)
    rw [List.forall_mem_cons]
    exact ⟨ne_of_flat hk rfl hk', hk ▸ ha.ne_keyword _⟩
  | .style hk' hn ha, before, more, rest, tail, hsplit, hi => by
    refine absurd hsplit (ne_append_cons ?_)
    rw [List.forall_mem_cons, List.forall_mem_cons]
    exact ⟨ne_of_flat hk rfl hk', hk ▸ hn.ne_keyword _, hk ▸ ha.ne_keyword _⟩
  | .relation hk' ha hr hb, before, more, rest, tail, hsplit, hi => by
    refine absurd hsplit (ne_append_cons ?_)
    simp only [List.forall_mem_cons]
    exact ⟨ne_of_flat hk rfl hk', hk ▸ ha.ne_keyword _, by simp [hr, hk], hk ▸ hb.ne_keyword _,
      by simp⟩
  | .labelled hk' ha hr hb hc hl, before, more, rest, tail, hsplit, hi => by
    refine absurd hsplit (ne_append_cons ?_)
    simp only [List.forall_mem_cons]
    exact ⟨ne_of_flat hk rfl hk', hk ▸ ha.ne_keyword _, by simp [hr, hk], hk ▸ hb.ne_keyword _,
      by simp [hc, hk], by simp [hl, hk], by simp⟩
  | .component hk' hn ho hc, before, more, rest, tail, hsplit, hi => by
    obtain ⟨ts', rfl, rfl, htail, hc'⟩ := hc.insert hkind hx hk (by simp) hk' hn ho hsplit hi
    exact ⟨_, htail, .component hk' hn ho hc'⟩
  | .note hk' hn ho hc, before, more, rest, tail, hsplit, hi => by
    obtain ⟨ts', rfl, rfl, htail, hc'⟩ := hc.insert hkind hx hk (by simp) hk' hn ho hsplit hi
    exact ⟨_, htail, .note hk' hn ho hc'⟩
  | .container hk' hroom hn ho hc, before, more, rest, tail, hsplit, hi => by
    obtain ⟨front, rfl, hname⟩ := cons_eq_append_cons hsplit (by
      rw [hk, hk']
      cases kind <;> simp_all [BlockKind.keyword])
    obtain ⟨front, rfl, hopen⟩ := cons_eq_append_cons hname (hk ▸ hn.ne_keyword _)
    obtain ⟨front, rfl, hinner⟩ := cons_eq_append_cons hopen (by simp [hk, ho])
    obtain ⟨more', htail, hc'⟩ := hc.insert_nested hkind hx hk hinner hi
    exact ⟨more', htail, .container hk' hroom hn ho hc'⟩

theorem Content.insert_nested (hkind : kind ≠ .container) (hx : IsStray kind x)
    (hk : k.kind = .keyword kind.keyword) {kind' : BlockKind} {depth : ℕ} {ts : List Token}
    {ps : List (Field × String)} {body : List Phrase} : Content kind' depth ts ps body →
    ∀ {before more rest tail}, ts = before ++ k :: more → Insertion kind x (more ++ rest) tail →
      ∃ more', tail = more' ++ rest ∧ Content kind' depth (before ++ k :: more') ps body
  | .close hclose, before, more, rest, tail, hsplit, hi => by
    refine absurd hsplit (ne_append_cons ?_)
    simp [hclose, hk]
  | .property hf hname hv hstyle hc, before, more, rest, tail, hsplit, hi => by
    obtain ⟨front, rfl, hvalue⟩ := cons_eq_append_cons hsplit
      (hk ▸ hname.ne_keyword (opensBlock_keyword kind))
    obtain ⟨front, rfl, hinner⟩ := cons_eq_append_cons hvalue (hk ▸ hv.ne_keyword _)
    obtain ⟨more', htail, hc'⟩ := hc.insert_nested hkind hx hk hinner hi
    refine ⟨more', htail, .property hf hname hv ?_ hc'⟩
    intro hcontainer hword ha
    rw [hinner] at hstyle
    exact hstyle hcontainer hword (ha.replace fun _ hname' => absurd hk (hname'.ne_keyword _))
  | @Content.statement _ used s ts _ _ hw hne hends hc, before, more, rest, tail, hsplit, hi => by
    -- The block is in this statement, or in what follows; then its keyword, which nothing looks
    -- beyond, stays in front of the change.
    obtain ⟨inner, hused, rfl⟩ | ⟨front, rfl, hts⟩ := append_eq_append_cons hsplit
    · rw [List.append_assoc] at hi
      obtain ⟨inner', htail, hw'⟩ := hw.insert hkind hx hk hused hi
      refine ⟨inner' ++ ts, by rw [htail, List.append_assoc], ?_⟩
      rw [← List.cons_append, ← List.append_assoc]
      exact .statement hw' hne hends hc
    · obtain ⟨more', htail, hc'⟩ := hc.insert_nested hkind hx hk hts hi
      refine ⟨more', htail, ?_⟩
      rw [hts] at hends
      rw [List.append_assoc]
      exact .statement hw hne (hends.replace fun _ hname => absurd hk (hname.ne_keyword _)) hc'
  | .stray hs hc, before, more, rest, tail, hsplit, hi => by
    obtain ⟨front, rfl, hinner⟩ := cons_eq_append_cons hsplit
      (hk ▸ hs.not_block _ (opensBlock_iff.mp (opensBlock_keyword kind)))
    obtain ⟨more', htail, hc'⟩ := hc.insert_nested hkind hx hk hinner hi
    exact ⟨more', htail, .stray hs hc'⟩

end

/-- The statements of a document go on as they did: none of them ends at the block of another. -/
theorem Document.insert (hkind : kind ≠ .container) (hx : IsStray kind x)
    (hk : k.kind = .keyword kind.keyword) {ts : List Token} {ss : List Phrase}
    (h : Document ts ss) :
    ∀ {before more tail}, ts = before ++ k :: more → Insertion kind x more tail →
      Document (before ++ k :: tail) ss := by
  induction h with
  | nil =>
    intro before more tail hsplit
    simp at hsplit
  | @cons used s ts ss hw hd ih =>
    intro before more tail hsplit hi
    obtain ⟨inner, rfl, rfl⟩ | ⟨front, rfl, rfl⟩ := append_eq_append_cons hsplit
    · obtain ⟨inner', rfl, hw'⟩ := hw.insert hkind hx hk rfl hi
      rw [← List.cons_append, ← List.append_assoc]
      exact .cons hw' hd
    · rw [List.append_assoc]
      exact .cons hw (ih rfl hi)

end

end Grammar

/-- What a component or an annotation does not know can stand between any two of its items, and the
document says the same. -/
theorem parseStatements_insert_stray {kind : BlockKind} (hkind : kind ≠ .container)
    {front back : List Token} {x : Token} {ss : List Statement}
    (hfront : Grammar.EndsInBlock kind front) (hx : Grammar.IsStray kind x)
    (h : (parseStatements (front ++ back)).outcome = .ok ss) :
    ∃ ss', (parseStatements (front ++ x :: back)).outcome = .ok ss' ∧
      Statement.phrases ss' = Statement.phrases ss := by
  obtain ⟨before, k, n, o, items, rfl, hk, -, -, hitems⟩ := hfront
  have hdoc := (parseStatements_eq_ok_iff.mp h).document
  have hins : Grammar.Insertion kind x (n :: o :: items ++ back) (n :: o :: items ++ x :: back) :=
    ⟨n, o, items, back, rfl, rfl, hitems⟩
  obtain ⟨ss', hss', hphrases⟩ := (hdoc.insert hkind hx hk (List.append_assoc ..) hins).read
  rw [List.append_assoc]
  exact ⟨ss', parseStatements_eq_ok_iff.mpr hss', hphrases⟩

/-- An annotation in a container, behind a component that it is about. -/
def annotatedSource : String :=
  "container c \x7b style s component a \x7b width 3 \x7d annotation a \x7b tooltip \"t\" \x7d \x7d"

/-- In the container `style` would be a property, and in the annotation it is skipped. -/
theorem insert_stray_of_annotated : ∃ ss ss',
    (parseStatements (tokenize annotatedSource)).outcome = .ok ss ∧
    (parseStatements ((tokenize annotatedSource).take 16 ++
      ⟨.keyword .style, "style", ⟨73, 78⟩, 1, 74⟩ :: (tokenize annotatedSource).drop 16)).outcome =
        .ok ss' ∧
    Statement.phrases ss' = Statement.phrases ss := by
  have hrun : (parseStatements (tokenize annotatedSource)).outcome.toOption.any (fun _ => true) =
      true := by
    decide +kernel
  obtain ⟨ss, hss, -⟩ := Attempt.exists_eq_ok hrun
  have hfront : Grammar.EndsInBlock .note ((tokenize annotatedSource).take 16) := by
    refine ⟨(tokenize annotatedSource).take 11, ⟨.keyword .note, "annotation", ⟨46, 56⟩, 1, 47⟩,
      ⟨.identifier, "a", ⟨57, 58⟩, 1, 58⟩, ⟨.leftBrace, "\x7b", ⟨59, 60⟩, 1, 60⟩,
      [⟨.property, "tooltip", ⟨61, 68⟩, 1, 62⟩, ⟨.string, "t", ⟨69, 72⟩, 1, 70⟩],
      by decide +kernel, rfl, Or.inl rfl, rfl, ?_⟩
    exact .property (f := .tooltip) (by decide) (Or.inl ⟨rfl, rfl⟩) (Or.inl (by decide)) .nil
  have hx : Grammar.IsStray .note ⟨.keyword .style, "style", ⟨73, 78⟩, 1, 74⟩ :=
    ⟨by decide, by decide, nofun, by simp [Grammar.Names, BlockKind.fields]⟩
  obtain ⟨ss', hss', hsame⟩ := parseStatements_insert_stray (by decide) hfront hx
    ((List.take_append_drop 16 (tokenize annotatedSource)).symm ▸ hss)
  exact ⟨ss, ss', hss, hss', hsame⟩

end ArchDiagram
