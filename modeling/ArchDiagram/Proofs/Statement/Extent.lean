import ArchDiagram.Proofs.Statement.Order
import ArchDiagram.Proofs.Statement.Recognition

/-! The extent of statements. A statement takes its keyword and some tokens behind it, and its span
goes from the first of these to the last; so what it names lies inside of it, what is nested in it
lies between its braces, and siblings do not overlap. -/
namespace ArchDiagram

namespace Span

/-- All of `s` stands in front of `t`. -/
def Before (s t : Span) : Prop :=
  s.stop ≤ t.start

/-- All of `s` stands inside of `t`. -/
def Within (s t : Span) : Prop :=
  t.start ≤ s.start ∧ s.stop ≤ t.stop

end Span

def Attribute.spans (a : Attribute) : List Span :=
  [a.name.span, a.value.span]

def Property.spans (p : Property) : List Span :=
  [p.field.span, p.value.span]

namespace Statement

/-- The places of what a statement names: ids, attributes, properties and labels. -/
def parts : Statement → List Span
  | .layout _ as => as.flatMap Attribute.spans
  | .style _ name as => name.span :: as.flatMap Attribute.spans
  | .component _ id ps | .container _ id ps _ | .note _ id ps => id.span :: ps.flatMap Property.spans
  | .relation _ source target label =>
    source.span :: target.span :: label.toList.map Located.span

lemma body_eq_nil {s : Statement} (h : s.keyword ≠ .container) : s.body = [] := by
  cases s with
  | container => exact absurd rfl h
  | _ => rfl

/-- The statements stand one after the other. -/
def InOrder (ss : List Statement) : Prop :=
  ss.Pairwise fun s t => s.span.Before t.span

/-- The third and the last of the tokens are braces, and the statements stand between them. -/
def BetweenBraces (used : List Token) (ss : List Statement) : Prop :=
  ∃ o c, used[2]? = some o ∧ o.kind = .leftBrace ∧ used.getLast? = some c ∧ c.kind = .rightBrace ∧
    ∀ t ∈ ss, o.span.Before t.span ∧ t.span.Before c.span

/-- How the spans of a statement lie over the tokens `used`, which are those that it takes. -/
structure SpansOver (used : List Token) (s : Statement) : Prop where
  nonempty : s.span.start < s.span.stop
  start : ∃ k, used.head? = some k ∧ k.kind = .keyword s.keyword ∧ s.span.start = k.span.start
  stop : ∃ l, used.getLast? = some l ∧ s.span.stop = l.span.stop
  parts : ∀ p ∈ s.parts, p.Within s.span
  siblings : InOrder s.body
  body : s.keyword = .container → BetweenBraces used s.body

/-- The span of the statement reaches from its keyword to the last of the tokens. -/
def Ends (used : List Token) (s : Statement) : Prop :=
  ∃ k l, used.head? = some k ∧ used.getLast? = some l ∧ k.kind = .keyword s.keyword ∧
    s.span = k.span.union l.span

/-- The statements take tokens one after the other, and there may be others between them. -/
inductive Spread : List Token → List Statement → Prop
  | nil {ts} : Spread ts []
  | skip {t ts ss} (rest : Spread ts ss) : Spread (t :: ts) ss
  | cons {used s ts ss} (ends : s.Ends used) (rest : Spread ts ss) : Spread (used ++ ts) (s :: ss)

/-- How a statement is made of the tokens `used`. -/
structure Frame (used : List Token) (s : Statement) : Prop where
  ends : s.Ends used
  parts : s.parts ⊆ used.map Token.span
  block : s.keyword = .container → ∃ k n o inner c, used = k :: n :: o :: (inner ++ [c]) ∧
    o.kind = .leftBrace ∧ c.kind = .rightBrace ∧ Spread inner s.body

variable {lo hi : ℕ} {used ts : List Token} {s : Statement} {ss : List Statement}

/-- Where tokens come in order, the keyword starts first and the last token ends last. -/
lemma Ends.span_eq (h : s.Ends used) (hu : TokensBetween lo hi used) :
    ∃ k l, used.head? = some k ∧ used.getLast? = some l ∧ k.kind = .keyword s.keyword ∧
      s.span = ⟨k.span.start, l.span.stop⟩ := by
  obtain ⟨k, l, hk, hl, hkind, hspan⟩ := h
  refine ⟨k, l, hk, hl, hkind, ?_⟩
  have hstart := hu.start_le_of_head? hk (List.mem_of_getLast? hl)
  have hstop := hu.stop_le_of_getLast? hl (List.mem_of_head? hk)
  rw [hspan, Span.union, Nat.min_eq_left hstart, Nat.max_eq_right hstop]

/-- Statements that are spread over tokens keep the order of these, and stay in their bounds. -/
theorem Spread.inOrder (h : Spread ts ss) {lo : ℕ} (hts : TokensBetween lo hi ts) :
    InOrder ss ∧ ∀ s ∈ ss, lo ≤ s.span.start ∧ s.span.stop ≤ hi := by
  induction h generalizing lo with
  | nil => exact ⟨.nil, by simp⟩
  | skip _ ih => exact ih (hts.sublist (List.sublist_cons_self _ _))
  | @cons used s ts ss ends _ ih =>
    have hused := hts.sublist (List.sublist_append_left used ts)
    obtain ⟨k, l, hk, hl, -, hspan⟩ := ends.span_eq hused
    obtain ⟨horder, hbounds⟩ := ih (hts.behind (List.mem_of_getLast? hl))
    have hkb := hused.bounds k (List.mem_of_head? hk)
    have hlb := hused.bounds l (List.mem_of_getLast? hl)
    refine ⟨List.pairwise_cons.mpr ⟨?_, horder⟩, ?_⟩
    · intro t ht
      rw [Span.Before, hspan]
      exact (hbounds t ht).1
    · intro t ht
      obtain rfl | ht := List.mem_cons.mp ht
      · rw [hspan]
        exact ⟨hkb.1, hlb.2.2⟩
      · have hb := hbounds t ht
        omega

lemma Frame.body_between (h : s.Frame used) (hu : TokensBetween lo hi used) :
    InOrder s.body ∧ (s.keyword = .container → BetweenBraces used s.body) := by
  by_cases hc : s.keyword = .container
  · obtain ⟨k, n, o, inner, c, rfl, ho, hclose, hspread⟩ := h.block hc
    have hinner : TokensBetween o.span.stop c.span.start inner := by
      have hfront : TokensBetween lo hi ([k, n, o] ++ (inner ++ [c])) := hu
      exact (hfront.behind (t := o) (by simp)).ahead (by simp)
    obtain ⟨horder, hbounds⟩ := hspread.inOrder hinner
    refine ⟨horder, fun _ => ⟨o, c, rfl, ho, ?_, hclose, hbounds⟩⟩
    rw [← List.cons_append, ← List.cons_append, ← List.cons_append, List.getLast?_concat]
  · rw [body_eq_nil hc]
    exact ⟨.nil, fun h => absurd h hc⟩

theorem Frame.spansOver (h : s.Frame used) (hu : TokensBetween lo hi used) : s.SpansOver used := by
  obtain ⟨k, l, hk, hl, hkind, hspan⟩ := h.ends.span_eq hu
  obtain ⟨horder, hbraces⟩ := h.body_between hu
  have hkb := hu.bounds k (List.mem_of_head? hk)
  have hlast := hu.stop_le_of_getLast? hl (List.mem_of_head? hk)
  refine ⟨?_, ⟨k, hk, hkind, ?_⟩, ⟨l, hl, ?_⟩, ?_, horder, hbraces⟩
  · rw [hspan]
    change k.span.start < l.span.stop
    omega
  · rw [hspan]
  · rw [hspan]
  · intro p hp
    obtain ⟨t, ht, rfl⟩ := List.mem_map.mp (h.parts hp)
    rw [hspan]
    exact ⟨hu.start_le_of_head? hk ht, hu.stop_le_of_getLast? hl ht⟩

end Statement

/-- The place of the last of the tokens, or else `start`. -/
def lastSpan (start : Span) (ts : List Token) : Span :=
  ts.getLast?.elim start Token.span

@[simp] theorem lastSpan_cons (start : Span) (t : Token) (ts : List Token) :
    lastSpan start (t :: ts) = lastSpan t.span ts := by
  rw [lastSpan, lastSpan, List.getLast?_cons]
  cases ts.getLast? <;> rfl

namespace Statement

lemma ends_of_span {k : Token} {used : List Token} {s : Statement} (hk : k.kind = .keyword s.keyword)
    (h : s.span = k.span.union (lastSpan k.span used)) : s.Ends (k :: used) := by
  refine ⟨k, used.getLast?.getD k, rfl, List.getLast?_cons, hk, ?_⟩
  rw [h, lastSpan]
  cases used.getLast? <;> rfl

end Statement

namespace Parser
open Grammar Statement

/-- What attributes name was read, and the last of them ends what was read. -/
lemma attributes_extent : Reads attributes fun used as =>
    as.flatMap Attribute.spans ⊆ used.map Token.span ∧
      ∀ start, lastValue start as = lastSpan start used := by
  intro ts as rest h
  rw [attributes_eq_done_iff] at h
  induction h with
  | nil => exact ⟨[], rfl, by simp, fun _ => rfl⟩
  | @cons n e v _ as _ _ _ _ _ ih =>
    obtain ⟨used, rfl, hspans, hlast⟩ := ih
    refine ⟨n :: e :: v :: used, rfl, ?_, ?_⟩
    · change n.span :: v.span :: as.flatMap Attribute.spans ⊆
        n.span :: e.span :: v.span :: used.map Token.span
      grind
    · intro start
      rw [lastSpan_cons, lastSpan_cons, lastSpan_cons, ← hlast, lastValue, lastValue,
        List.getLast?_cons]
      cases as.getLast? <;> rfl

/-- A block ends with its brace, and its body is spread over the tokens in front of that. -/
lemma items_extent {kind : BlockKind} {nested : Parser Statement}
    (hn : Reads nested fun used s => s.Ends used) :
    Reads (items kind nested) fun used b => ∃ inner c, used = inner ++ [c] ∧
      c.kind = .rightBrace ∧ b.close = c.span ∧
      b.properties.flatMap Property.spans ⊆ inner.map Token.span ∧
      Spread inner b.body := by
  intro ts b rest h
  rw [items_eq_done_iff] at h
  induction h with
  | @close t _ role => exact ⟨[t], rfl, [], t, rfl, role_eq_close_iff.mp role, rfl, by simp, .nil⟩
  | @skipped t _ _ _ _ _ ih =>
    obtain ⟨_, rfl, inner, c, rfl, hc, hclose, hspans, hbody⟩ := ih
    exact ⟨t :: (inner ++ [c]), rfl, t :: inner, c, rfl, hc, hclose,
      List.subset_cons_of_subset _ hspans, hbody.skip⟩
  | @property t v _ _ b _ _ _ _ ih =>
    obtain ⟨_, rfl, inner, c, rfl, hc, hclose, hspans, hbody⟩ := ih
    refine ⟨t :: v :: (inner ++ [c]), rfl, t :: v :: inner, c, rfl, hc, hclose, ?_, hbody.skip.skip⟩
    change t.span :: v.span :: b.properties.flatMap Property.spans ⊆
      t.span :: v.span :: inner.map Token.span
    grind
  | statement _ read _ _ ih =>
    obtain ⟨first, hfirst, hs⟩ := hn _ _ _ read
    obtain ⟨_, rfl, inner, c, rfl, hc, hclose, hspans, hbody⟩ := ih
    refine ⟨first ++ (inner ++ [c]), ?_, first ++ inner, c, ?_, hc, hclose, ?_, .cons hs hbody⟩
    · rw [hfirst, List.append_assoc first]
    · rw [List.append_assoc]
    · rw [List.map_append]
      exact List.subset_append_of_subset_right _ hspans

section
variable {k : Token} {ts rest : List Token} {s : Statement}

lemma frame_layout (hk : k.kind = .keyword .layout) (h : (layout k.span ts).value = .done s rest) :
    ∃ used, k :: ts = used ++ rest ∧ s.Frame used := by
  obtain ⟨as, mid, ha, hs⟩ := bind_eq_done_iff.mp h
  obtain ⟨used, rfl, hspans, hlast⟩ := attributes_extent _ _ _ ha
  obtain ⟨rfl, rfl⟩ := pure_eq_done_iff.mp hs
  refine ⟨k :: used, rfl, ends_of_span hk ?_, ?_, by simp [keyword]⟩
  · rw [← hlast]
    rfl
  · exact List.subset_cons_of_subset _ hspans

lemma frame_style (hk : k.kind = .keyword .style) (h : (style k.span ts).value = .done s rest) :
    ∃ used, k :: ts = used ++ rest ∧ s.Frame used := by
  obtain ⟨n, us, as, rfl, -, ha, rfl⟩ := style_eq_done h
  obtain ⟨used, rfl, hspans, hlast⟩ := attributes_extent _ _ _ ha
  refine ⟨k :: n :: used, rfl, ends_of_span hk ?_, ?_, by simp [keyword]⟩
  · rw [lastSpan_cons, ← hlast]
    rfl
  · change n.span :: as.flatMap Attribute.spans ⊆ k.span :: n.span :: used.map Token.span
    grind

lemma frame_relation (hk : k.kind = .keyword .relation)
    (h : (relation k.span ts).value = .done s rest) :
    ∃ used, k :: ts = used ++ rest ∧ s.Frame used := by
  obtain ⟨a, r, b, us, label, rfl, -, -, -, hlabel, rfl⟩ := relation_eq_done h
  obtain ⟨rfl, rfl, -⟩ | ⟨c, l, rfl, -, -, rfl⟩ := relationLabel_eq_done_iff.mp hlabel
  · refine ⟨[k, a, r, b], rfl, ends_of_span hk rfl, ?_, by simp [keyword]⟩
    simp [Statement.parts, Token.located]
  · refine ⟨[k, a, r, b, c, l], rfl, ends_of_span hk rfl, ?_, by simp [keyword]⟩
    simp [Statement.parts, Token.located]

/-- The statements with a block: `make` builds one from its id and its block. -/
lemma frame_blockStatement {kind : BlockKind} {nested : Parser Statement}
    (make : Located Id → Block → Statement) (hn : Reads nested fun used s => s.Ends used)
    (hk : ∀ id b, k.kind = .keyword (make id b).keyword)
    (hspan : ∀ id b, (make id b).span = k.span.union b.close)
    (hparts : ∀ id b, (make id b).parts = id.span :: b.properties.flatMap Property.spans)
    (hbody : ∀ id b, (make id b).keyword = .container → (make id b).body = b.body)
    (h : ((do let id ← identifier; let b ← block kind nested; return make id b :
      Parser Statement) ts).value = .done s rest) :
    ∃ used, k :: ts = used ++ rest ∧ s.Frame used := by
  obtain ⟨n, o, us, b, rfl, -, ho, hitems, rfl⟩ := blockStatement_eq_done h
  obtain ⟨_, rfl, inner, c, rfl, hc, hclose, hspans, hspread⟩ := items_extent hn _ _ _ hitems
  refine ⟨k :: n :: o :: (inner ++ [c]), rfl, ends_of_span (hk _ _) ?_, ?_, ?_⟩
  · rw [hspan, hclose, lastSpan_cons, lastSpan_cons, lastSpan, List.getLast?_concat]
    rfl
  · rw [hparts]
    change n.span :: _ ⊆ k.span :: n.span :: o.span :: (inner ++ [c]).map Token.span
    grind
  · intro hcontainer
    rw [hbody _ _ hcontainer]
    exact ⟨k, n, o, inner, c, rfl, ho, hc, hspread⟩

end

lemma reads_dispatch_frame {inner : Option (Parser Statement)}
    (hn : ∀ nested, inner = some nested → Reads nested fun used s => s.Ends used) :
    Reads (dispatch inner) fun used s => s.Frame used := by
  intro ts s rest
  cases ts with
  | nil => rintro ⟨⟩
  | cons k ts =>
    simp only [dispatch]
    cases hk : k.kind with
    | keyword word =>
      cases word with
      | layout => exact frame_layout hk
      | style => exact frame_style hk
      | component =>
        exact frame_blockStatement (fun id b => .component (k.span.union b.close) id b.properties)
          reads_fail (fun _ _ => hk) (fun _ _ => rfl) (fun _ _ => rfl) (by simp [keyword])
      | container =>
        cases inner with
        | none => rintro ⟨⟩
        | some nested =>
          exact frame_blockStatement
            (fun id b => .container (k.span.union b.close) id b.properties b.body) (hn nested rfl)
            (fun _ _ => hk) (fun _ _ => rfl) (fun _ _ => rfl) (fun _ _ _ => rfl)
      | relation => exact frame_relation hk
      | note =>
        exact frame_blockStatement (fun id b => .note (k.span.union b.close) id b.properties)
          reads_fail (fun _ _ => hk) (fun _ _ => rfl) (fun _ _ => rfl) (by simp [keyword])
    | _ => rintro ⟨⟩

theorem reads_statement_frame (room : ℕ) : Reads (statement room) fun used s => s.Frame used := by
  refine statement_induction (P := fun p => Reads p fun used s => s.Frame used) ?_ room
  intro inner hn
  exact reads_dispatch_frame fun nested hi => (hn nested hi).mono fun _ _ => Frame.ends

theorem SequenceRun.spread {one : Parser Statement} (h : Reads one fun used s => s.Ends used)
    {ts : List Token} {ss : List Statement} (hrun : SequenceRun one ts ss) : Spread ts ss := by
  induction hrun with
  | nil => exact .nil
  | cons read _ _ ih =>
    obtain ⟨used, hused, hs⟩ := h _ _ _ read
    rw [hused]
    exact .cons hs ih

/-- `s` is what the parser reads off `used`, where `rest` comes behind. -/
def Takes (used : List Token) (s : Statement) (rest : List Token) : Prop :=
  ∃ room, (statement room (used ++ rest)).value = .done s rest

/-- `p` reads `a` at some token of `ts`. -/
def ReadsWithin {α : Type} (p : Parser α) (ts : List Token) (a : α) : Prop :=
  ∃ us rest, us <:+ ts ∧ (p us).value = .done a rest

lemma ReadsWithin.of_suffix {α : Type} {p : Parser α} {us ts : List Token} {a : α}
    (h : ReadsWithin p us a) (hs : us <:+ ts) : ReadsWithin p ts a := by
  obtain ⟨mid, rest, hmid, hread⟩ := h
  exact ⟨mid, rest, hmid.trans hs, hread⟩

lemma ItemsRun.body_within {kind : BlockKind} {nested : Parser Statement}
    (hn : Reads nested fun _ _ => True) {ts rest : List Token} {b : Block}
    (h : ItemsRun kind nested ts b rest) : ∀ s ∈ b.body, ReadsWithin nested ts s := by
  induction h with
  | close => simp
  | skipped _ _ ih => exact fun s hs => (ih s hs).of_suffix (List.suffix_cons _ _)
  | property _ _ _ ih =>
    exact fun s hs => (ih s hs).of_suffix ((List.suffix_cons _ _).trans (List.suffix_cons _ _))
  | statement _ read _ _ ih =>
    intro x hx
    obtain rfl | hx := List.mem_cons.mp hx
    · exact ⟨_, _, List.suffix_rfl, read⟩
    · obtain ⟨used, hused, -⟩ := hn _ _ _ read
      exact (ih x hx).of_suffix ⟨used, hused.symm⟩

lemma SequenceRun.within {one : Parser Statement} (ho : Reads one fun _ _ => True) {ts : List Token}
    {ss : List Statement} (h : SequenceRun one ts ss) : ∀ s ∈ ss, ReadsWithin one ts s := by
  induction h with
  | nil => simp
  | cons read _ _ ih =>
    intro x hx
    obtain rfl | hx := List.mem_cons.mp hx
    · exact ⟨_, _, List.suffix_rfl, read⟩
    · obtain ⟨used, hused, -⟩ := ho _ _ _ read
      exact (ih x hx).of_suffix ⟨used, hused.symm⟩

lemma reads_statement_some (room : ℕ) : Reads (statement room) fun _ _ => True :=
  (reads_statement_frame room).mono fun _ _ _ => trivial

/-- The body of a statement was read by the parser that has room for one container less. -/
lemma statement_body {room : ℕ} {ts rest : List Token} {s : Statement}
    (h : (statement room ts).value = .done s rest) :
    ∀ x ∈ s.body, ∃ r, room = r + 1 ∧ ReadsWithin (statement r) ts x := by
  intro x hx
  obtain ⟨used, rfl, hframe⟩ := reads_statement_frame room _ _ _ h
  by_cases hc : s.keyword = .container
  · obtain ⟨k, n, o, inner, c, rfl, -, -, -⟩ := hframe.block hc
    obtain ⟨k', -, hk', -, hkind, -⟩ := hframe.ends
    obtain rfl := Option.some.inj hk'
    rw [hc] at hkind
    rw [List.cons_append, statement_keyword hkind] at h
    cases room with
    | zero => cases h
    | succ r =>
      obtain ⟨n, o, us, b, hus, -, -, hitems, rfl⟩ := blockStatement_eq_done h
      have hwithin := (items_eq_done_iff.mp hitems).body_within (reads_statement_some r) x hx
      refine ⟨r, rfl, hwithin.of_suffix ?_⟩
      rw [List.cons_append, hus]
      exact ⟨[k, n, o], rfl⟩
  · rw [body_eq_nil hc] at hx
    cases hx

/-- Each statement in a tree that was read off tokens was read off some of these. -/
theorem takes_occurrence (room : ℕ) : ∀ {ts : List Token} {s : Statement},
    ReadsWithin (statement room) ts s → ∀ opened, ∀ o ∈ s.occurrences opened,
      ∃ before used after, ts = before ++ used ++ after ∧ Takes used o.statement after := by
  induction room using Nat.strong_induction_on with
  | h room ih =>
    intro ts s h opened o ho
    obtain ⟨us, rest, hsuffix, hread⟩ := h
    obtain ⟨inner, hoccurrences⟩ := occurrences_eq opened s
    rw [hoccurrences] at ho
    -- The statement itself, or one that was read for its body and so with less room.
    obtain rfl | ho := List.mem_cons.mp ho
    · obtain ⟨before, rfl⟩ := hsuffix
      obtain ⟨used, rfl, -⟩ := reads_statement_some room _ _ _ hread
      exact ⟨before, used, rest, (List.append_assoc _ _ _).symm, room, hread⟩
    · obtain ⟨x, hx, ho⟩ := mem_occurrencesAll.mp ho
      obtain ⟨r, rfl, hwithin⟩ := statement_body hread x hx
      exact ih r (Nat.lt_succ_self r) (hwithin.of_suffix hsuffix) inner o ho

lemma Takes.frame {used rest : List Token} {s : Statement} (h : Takes used s rest) :
    s.Frame used := by
  obtain ⟨room, h⟩ := h
  obtain ⟨used', hused, hframe⟩ := reads_statement_frame room _ _ _ h
  rwa [List.append_cancel_right hused]

end Parser

/-- The statements of a source and all that is nested in them, each with the tokens that it takes. -/
lemma parseStatements_takes {ts : List Token} {ss : List Statement}
    (h : (parseStatements ts).outcome = .ok ss) : ∀ o ∈ Statement.occurrencesAll [] ss,
      ∃ before used after, ts = before ++ used ++ after ∧ Parser.Takes used o.statement after := by
  intro o ho
  have hrun := parseStatements_eq_ok_iff.mp h
  obtain ⟨s, hs, ho⟩ := Statement.mem_occurrencesAll.mp ho
  have hwithin := hrun.within (Parser.reads_statement_some maxNesting) s hs
  exact Parser.takes_occurrence maxNesting hwithin [] o ho

/-- The spans of statements are a tree over the source: each goes from the keyword of its statement to
the last token that this takes, siblings come one after the other, a body stands between the braces
of its container, and what a statement names stands inside of it. -/
theorem parseStatements_spans_nest {source : String} {ss : List Statement}
    (h : (parseStatements (tokenize source)).outcome = .ok ss) :
    Statement.InOrder ss ∧ ∀ o ∈ Statement.occurrencesAll [] ss, ∃ before used after,
      tokenize source = before ++ used ++ after ∧ Parser.Takes used o.statement after ∧
        o.statement.SpansOver used := by
  constructor
  · have hends := (Parser.reads_statement_frame maxNesting).mono fun _ _ => Statement.Frame.ends
    have hspread := (parseStatements_eq_ok_iff.mp h).spread hends
    exact (hspread.inOrder (tokenize_between source)).1
  · intro o ho
    obtain ⟨before, used, after, htokens, htakes⟩ := parseStatements_takes h o ho
    have hbetween := tokenize_between source
    rw [htokens] at hbetween
    exact ⟨before, used, after, htokens, htakes, htakes.frame.spansOver hbetween.middle⟩

/-- A stray comma, two containers, and statements that end with a keyword, a brace, a label or an
attribute. -/
def layeredSource : String :=
  "layout
container c \x7b , label \"é\" container d \x7b component a \x7b width 1 \x7d \x7d
  relation a -> d : \"é\" style s color = red \x7d
annotation c \x7b \x7d"

theorem spans_nest_of_layered : ∃ ss,
    (parseStatements (tokenize layeredSource)).outcome = .ok ss ∧
    (Statement.occurrencesAll [] ss).map (fun o => o.statement.span) =
      [⟨0, 6⟩, ⟨7, 120⟩, ⟨34, 73⟩, ⟨48, 71⟩, ⟨76, 98⟩, ⟨99, 118⟩, ⟨121, 137⟩] ∧
    Statement.InOrder ss ∧ ∀ o ∈ Statement.occurrencesAll [] ss, ∃ before used after,
      tokenize layeredSource = before ++ used ++ after ∧ Parser.Takes used o.statement after ∧
        o.statement.SpansOver used := by
  have hrun : (parseStatements (tokenize layeredSource)).outcome.toOption.any (fun ss =>
      (Statement.occurrencesAll [] ss).map (fun o => o.statement.span) =
        [⟨0, 6⟩, ⟨7, 120⟩, ⟨34, 73⟩, ⟨48, 71⟩, ⟨76, 98⟩, ⟨99, 118⟩, ⟨121, 137⟩]) = true := by
    decide +kernel
  obtain ⟨ss, hss, hspans⟩ := Attempt.exists_eq_ok hrun
  exact ⟨ss, hss, of_decide_eq_true hspans, parseStatements_spans_nest hss⟩

end ArchDiagram
