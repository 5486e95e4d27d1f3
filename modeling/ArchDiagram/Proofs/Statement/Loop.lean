import ArchDiagram.Proofs.Statement.Role

/-! The three loops of the parser, turn by turn: over attributes, over the items of a block, over the
statements of a document. Each has its runs, which end with a value, and its halts, which come to a
fault; what is said about a loop is shown along these. -/
namespace ArchDiagram
namespace Parser
open Grammar

namespace Outcome

variable {α β : Type} {f : α → β} {x : Outcome α} {rest : List Token}

lemma map_eq_done {b : β} : x.map f = .done b rest ↔ ∃ a, x = .done a rest ∧ f a = b := by
  cases x with
  | stop cause rest => simp [Outcome.map]
  | done a more =>
    simp only [Outcome.map, Outcome.done.injEq]
    constructor
    · rintro ⟨rfl, rfl⟩
      exact ⟨a, ⟨rfl, rfl⟩, rfl⟩
    · rintro ⟨b, ⟨rfl, rfl⟩, rfl⟩
      exact ⟨rfl, rfl⟩

lemma map_eq_stop {cause : Cause} : x.map f = .stop cause rest ↔ x = .stop cause rest := by
  cases x <;> simp [Outcome.map]

end Outcome

section Attributes

/-- Attributes are read until none is ahead. -/
inductive AttributesRun : List Token → List Attribute → List Token → Prop
  | nil {ts} (behind : ¬ AttributeAhead ts) : AttributesRun ts [] ts
  | cons {n e v ts as rest} (name : IsName n) (equals : e.kind = .equals)
      (value : IsValue n.value v) (more : AttributesRun ts as rest) :
      AttributesRun (n :: e :: v :: ts) (⟨n.located, v.located⟩ :: as) rest

/-- The last of the attributes has no value. -/
inductive AttributesHalt : List Token → List Token → Prop
  | value {n e rest} (name : IsName n) (equals : e.kind = .equals)
      (missing : ∀ v ∈ rest.head?, ¬ IsValue n.value v) : AttributesHalt (n :: e :: rest) rest
  | cons {n e v ts rest} (name : IsName n) (equals : e.kind = .equals)
      (value : IsValue n.value v) (more : AttributesHalt ts rest) :
      AttributesHalt (n :: e :: v :: ts) rest

variable {n e v : Token} {ts rest : List Token} {as : List Attribute} {cause : Cause}

lemma attributes_of_not_ahead (h : ¬ AttributeAhead rest) :
    (attributes rest).value = .done [] rest := by
  fun_cases attributes rest with
  | case1 n e v ts hn | case2 n e v ts hn | case4 n e hn =>
    rw [Bool.and_eq_true, decide_eq_true_eq, isName_iff] at hn
    exact absurd (attributeAhead_cons_cons.mpr hn) h
  | case3 | case5 | case6 => rfl

lemma attributes_cons (hn : IsName n) (he : e.kind = .equals) (hv : IsValue n.value v) :
    (attributes (n :: e :: v :: ts)).value =
      (attributes ts).value.map (⟨n.located, v.located⟩ :: ·) := by
  simp [attributes, isName_iff.mpr hn, he, isValueOf_iff.mpr hv]

lemma attributes_of_no_value (hn : IsName n) (he : e.kind = .equals)
    (hv : ∀ v ∈ rest.head?, ¬ IsValue n.value v) :
    (attributes (n :: e :: rest)).value = .stop (.expected .attributeValue) rest := by
  cases rest with
  | nil => simp [attributes, isName_iff.mpr hn, he]
  | cons v rest =>
    have hv' : v.isValueOf n.value = false := by
      rw [Bool.eq_false_iff]
      exact mt isValueOf_iff.mp (hv v rfl)
    simp [attributes, isName_iff.mpr hn, he, hv']

/-- Every turn of the loop is one of those. -/
lemma attributes_run (ts : List Token) :
    (∀ as rest, (attributes ts).value = .done as rest → AttributesRun ts as rest) ∧
    ∀ cause rest, (attributes ts).value = .stop cause rest →
      cause = .expected .attributeValue ∧ AttributesHalt ts rest := by
  fun_induction attributes ts with
  | case1 n e v ts hn hv more ih =>
    rw [Bool.and_eq_true, decide_eq_true_eq, isName_iff] at hn
    rw [isValueOf_iff] at hv
    constructor
    · intro as rest h
      obtain ⟨as, ha, rfl⟩ := Outcome.map_eq_done.mp h
      exact .cons hn.1 hn.2 hv (ih.1 as rest ha)
    · intro cause rest h
      obtain ⟨hcause, hmore⟩ := ih.2 cause rest (Outcome.map_eq_stop.mp h)
      exact ⟨hcause, .cons hn.1 hn.2 hv hmore⟩
  | case2 n e v ts hn hv =>
    rw [Bool.and_eq_true, decide_eq_true_eq, isName_iff] at hn
    rw [isValueOf_iff] at hv
    refine ⟨by rintro as rest ⟨⟩, ?_⟩
    rintro cause rest ⟨⟩
    exact ⟨rfl, .value hn.1 hn.2 (by rintro _ ⟨⟩; exact hv)⟩
  | case3 n e v ts hn | case5 n e hn =>
    refine ⟨?_, by rintro cause rest ⟨⟩⟩
    rintro as rest ⟨⟩
    exact .nil (by simpa [isName_iff] using hn)
  | case4 n e hn =>
    rw [Bool.and_eq_true, decide_eq_true_eq, isName_iff] at hn
    refine ⟨by rintro as rest ⟨⟩, ?_⟩
    rintro cause rest ⟨⟩
    exact ⟨rfl, .value hn.1 hn.2 (by rintro _ ⟨⟩)⟩
  | case6 ts h3 h2 =>
    refine ⟨?_, by rintro cause rest ⟨⟩⟩
    rintro as rest ⟨⟩
    refine .nil ?_
    rintro ⟨n, e, more, rfl, -⟩
    cases more with
    | nil => exact h2 n e rfl
    | cons v more => exact h3 n e v more rfl

theorem attributes_eq_done_iff : (attributes ts).value = .done as rest ↔ AttributesRun ts as rest := by
  constructor
  · exact (attributes_run ts).1 as rest
  · intro h
    induction h with
    | nil behind => exact attributes_of_not_ahead behind
    | cons name equals value _ ih =>
      rw [attributes_cons name equals value]
      exact Outcome.map_eq_done.mpr ⟨_, ih, rfl⟩

theorem attributes_eq_stop_iff : (attributes ts).value = .stop cause rest ↔
    cause = .expected .attributeValue ∧ AttributesHalt ts rest := by
  constructor
  · exact (attributes_run ts).2 cause rest
  · rintro ⟨rfl, h⟩
    induction h with
    | value name equals missing => exact attributes_of_no_value name equals missing
    | cons name equals value _ ih =>
      rw [attributes_cons name equals value]
      exact Outcome.map_eq_stop.mpr ih

lemma events_attributes (ts : List Token) : (attributes ts).events = [] := by
  fun_induction attributes ts with
  | case1 n e v ts hn hv more ih => exact ih
  | case2 | case3 | case4 | case5 | case6 => rfl

end Attributes

section Items

/-- The items of a block are read up to its closing brace. -/
inductive ItemsRun (kind : BlockKind) (nested : Parser Statement) :
    List Token → Block → List Token → Prop
  | close {t ts} (role : kind.role t ts = .close) :
      ItemsRun kind nested (t :: ts) ⟨[], [], t.span⟩ ts
  | skipped {t ts b rest} (role : kind.role t ts = .skipped) (more : ItemsRun kind nested ts b rest) :
      ItemsRun kind nested (t :: ts) b rest
  | property {t v ts field b rest} (role : kind.role t (v :: ts) = .property field)
      (value : field.accepts v = true) (more : ItemsRun kind nested ts b rest) :
      ItemsRun kind nested (t :: v :: ts) (b.addProperty ⟨⟨field, t.span⟩, v.located⟩) rest
  | statement {t ts s mid b rest} (role : kind.role t ts = .statement)
      (read : (nested (t :: ts)).value = .done s mid) (le : mid.length ≤ ts.length)
      (more : ItemsRun kind nested mid b rest) :
      ItemsRun kind nested (t :: ts) (b.addStatement s) rest

/-- After some items comes what is none, or only the beginning of one. A statement that takes no token
away would be read for ever. -/
inductive ItemsHalt (kind : BlockKind) (nested : Parser Statement) :
    List Token → Cause → List Token → Prop
  | ended : ItemsHalt kind nested [] (.expected .closingBrace) []
  | refused {t ts} (role : kind.role t ts = .refused) :
      ItemsHalt kind nested (t :: ts) (.expected .propertyOrClosingBrace) (t :: ts)
  | value {t rest field} (role : kind.role t rest = .property field)
      (missing : ∀ v ∈ rest.head?, ¬ field.accepts v = true) :
      ItemsHalt kind nested (t :: rest) (.expected field.expectation) rest
  | inside {t ts cause rest} (role : kind.role t ts = .statement)
      (stopped : (nested (t :: ts)).value = .stop cause rest) :
      ItemsHalt kind nested (t :: ts) cause rest
  | endless {t ts s rest} (role : kind.role t ts = .statement)
      (read : (nested (t :: ts)).value = .done s rest) (lt : ts.length < rest.length) :
      ItemsHalt kind nested (t :: ts) (.expected .closingBrace) rest
  | skipped {t ts cause rest} (role : kind.role t ts = .skipped)
      (more : ItemsHalt kind nested ts cause rest) : ItemsHalt kind nested (t :: ts) cause rest
  | property {t v ts field cause rest} (role : kind.role t (v :: ts) = .property field)
      (value : field.accepts v = true) (more : ItemsHalt kind nested ts cause rest) :
      ItemsHalt kind nested (t :: v :: ts) cause rest
  | statement {t ts s mid cause rest} (role : kind.role t ts = .statement)
      (read : (nested (t :: ts)).value = .done s mid) (le : mid.length ≤ ts.length)
      (more : ItemsHalt kind nested mid cause rest) : ItemsHalt kind nested (t :: ts) cause rest

variable {kind : BlockKind} {nested : Parser Statement} {t v : Token} {ts mid rest : List Token}
  {field : Field} {s : Statement} {b : Block} {cause : Cause}

lemma items_close (h : kind.role t ts = .close) :
    items kind nested (t :: ts) = ⟨[], .done ⟨[], [], t.span⟩ ts⟩ := by
  rw [items, h]

lemma items_skipped (h : kind.role t ts = .skipped) : items kind nested (t :: ts) =
    ⟨.skippedToken t.value t.line :: (items kind nested ts).events, (items kind nested ts).value⟩ := by
  rw [items, h]

lemma items_property (h : kind.role t (v :: ts) = .property field) (hv : field.accepts v = true) :
    items kind nested (t :: v :: ts) = ⟨(items kind nested ts).events,
      (items kind nested ts).value.map (Block.addProperty ⟨⟨field, t.span⟩, v.located⟩)⟩ := by
  rw [items, h]
  simp only [if_pos hv]

lemma items_statement (h : kind.role t ts = .statement)
    (hs : (nested (t :: ts)).value = .done s mid) (hlen : mid.length ≤ ts.length) :
    items kind nested (t :: ts) =
      ⟨(nested (t :: ts)).events ++ (items kind nested mid).events,
        (items kind nested mid).value.map (Block.addStatement s)⟩ := by
  rw [items, h]
  simp only [hs, if_pos hlen]

lemma items_no_value (h : kind.role t rest = .property field)
    (hv : ∀ v ∈ rest.head?, ¬ field.accepts v = true) :
    (items kind nested (t :: rest)).value = .stop (.expected field.expectation) rest := by
  rw [items, h]
  cases rest with
  | nil => rfl
  | cons v rest => simp only [if_neg (hv v rfl)]

/-- Every turn of the loop is one of those. -/
lemma items_run (kind : BlockKind) (nested : Parser Statement) (ts : List Token) :
    (∀ b rest, (items kind nested ts).value = .done b rest → ItemsRun kind nested ts b rest) ∧
    ∀ cause rest, (items kind nested ts).value = .stop cause rest →
      ItemsHalt kind nested ts cause rest := by
  fun_induction items kind nested ts with
  | case1 =>
    refine ⟨by rintro b rest ⟨⟩, ?_⟩
    rintro cause rest ⟨⟩
    exact .ended
  | case2 t ts role =>
    refine ⟨?_, by rintro cause rest ⟨⟩⟩
    rintro b rest ⟨⟩
    exact .close role
  | case3 t ts role =>
    refine ⟨by rintro b rest ⟨⟩, ?_⟩
    rintro cause rest ⟨⟩
    exact .refused role
  | case4 t ts role more ih =>
    exact ⟨fun b rest h => .skipped role (ih.1 b rest h),
      fun cause rest h => .skipped role (ih.2 cause rest h)⟩
  | case5 t field role =>
    refine ⟨by rintro b rest ⟨⟩, ?_⟩
    rintro cause rest ⟨⟩
    exact .value role (by rintro _ ⟨⟩)
  | case6 t field v ts value more role ih =>
    constructor
    · intro b rest h
      obtain ⟨b, hb, rfl⟩ := Outcome.map_eq_done.mp h
      exact .property role value (ih.1 b rest hb)
    · intro cause rest h
      exact .property role value (ih.2 cause rest (Outcome.map_eq_stop.mp h))
  | case7 t field v ts value role =>
    refine ⟨by rintro b rest ⟨⟩, ?_⟩
    rintro cause rest ⟨⟩
    exact .value role (by rintro _ ⟨⟩; exact value)
  | case8 t ts role one cause rest stopped =>
    refine ⟨by rintro b rest ⟨⟩, ?_⟩
    rintro _ _ ⟨⟩
    exact .inside role stopped
  | case9 t ts role one s mid read le more ih =>
    constructor
    · intro b rest h
      obtain ⟨b, hb, rfl⟩ := Outcome.map_eq_done.mp h
      exact .statement role read le (ih.1 b rest hb)
    · intro cause rest h
      exact .statement role read le (ih.2 cause rest (Outcome.map_eq_stop.mp h))
  | case10 t ts role one s rest read le =>
    refine ⟨by rintro b rest ⟨⟩, ?_⟩
    rintro _ _ ⟨⟩
    exact .endless role read (Nat.lt_of_not_le le)

theorem items_eq_done_iff :
    (items kind nested ts).value = .done b rest ↔ ItemsRun kind nested ts b rest := by
  constructor
  · exact (items_run kind nested ts).1 b rest
  · intro h
    induction h with
    | close role => rw [items_close role]
    | skipped role _ ih => rw [items_skipped role, ih]
    | property role value _ ih =>
      rw [items_property role value]
      exact Outcome.map_eq_done.mpr ⟨_, ih, rfl⟩
    | statement role read le _ ih =>
      rw [items_statement role read le]
      exact Outcome.map_eq_done.mpr ⟨_, ih, rfl⟩

theorem items_eq_stop_iff :
    (items kind nested ts).value = .stop cause rest ↔ ItemsHalt kind nested ts cause rest := by
  constructor
  · exact (items_run kind nested ts).2 cause rest
  · intro h
    induction h with
    | ended => rw [items]
    | refused role => rw [items, role]
    | value role missing => exact items_no_value role missing
    | inside role stopped =>
      rw [items, role]
      simp only [stopped]
    | endless role read lt =>
      rw [items, role]
      simp only [read, if_neg (Nat.not_le_of_lt lt)]
    | skipped role _ ih => rw [items_skipped role, ih]
    | property role value _ ih =>
      rw [items_property role value]
      exact Outcome.map_eq_stop.mpr ih
    | statement role read le _ ih =>
      rw [items_statement role read le]
      exact Outcome.map_eq_stop.mpr ih

/-- A block reports the tokens that it skips itself, and what its statements report. -/
lemma mem_events_items {e : Event} (he : e ∈ (items kind nested ts).events) :
    (∃ value line, e = .skippedToken value line) ∨ ∃ us, e ∈ (nested us).events := by
  fun_induction items kind nested ts with
  | case4 t ts role more ih =>
    obtain rfl | he := List.mem_cons.mp he
    · exact .inl ⟨_, _, rfl⟩
    · exact ih he
  | case6 t field v ts value more role ih => exact ih he
  | case8 t ts role one cause rest stopped => exact .inr ⟨_, he⟩
  | case9 t ts role one s rest read le more ih =>
    obtain he | he := List.mem_append.mp he
    · exact .inr ⟨_, he⟩
    · exact ih he
  | case10 t ts role one s rest read le => exact .inr ⟨_, he⟩
  | case1 | case2 | case3 | case5 | case7 => cases he

end Items

section Sequence

/-- Statements are read up to the end of the tokens. -/
inductive SequenceRun (one : Parser Statement) : List Token → List Statement → Prop
  | nil : SequenceRun one [] []
  | cons {t ts s rest ss} (read : (one (t :: ts)).value = .done s rest)
      (le : rest.length ≤ ts.length) (more : SequenceRun one rest ss) :
      SequenceRun one (t :: ts) (s :: ss)

/-- After some statements comes what is none. -/
inductive SequenceHalt (one : Parser Statement) : List Token → Cause → List Token → Prop
  | here {t ts cause rest} (stopped : (one (t :: ts)).value = .stop cause rest) :
      SequenceHalt one (t :: ts) cause rest
  | endless {t ts s rest} (read : (one (t :: ts)).value = .done s rest)
      (lt : ts.length < rest.length) : SequenceHalt one (t :: ts) .unknownStatement rest
  | cons {t ts s mid cause rest} (read : (one (t :: ts)).value = .done s mid)
      (le : mid.length ≤ ts.length) (more : SequenceHalt one mid cause rest) :
      SequenceHalt one (t :: ts) cause rest

variable {one : Parser Statement} {t : Token} {ts mid rest : List Token} {s : Statement}
  {ss : List Statement} {cause : Cause}

lemma sequence_cons (hs : (one (t :: ts)).value = .done s mid) (hlen : mid.length ≤ ts.length) :
    sequence one (t :: ts) = ⟨(one (t :: ts)).events ++ (sequence one mid).events,
      (sequence one mid).value.map (s :: ·)⟩ := by
  rw [sequence]
  simp only [hs, if_pos hlen]

/-- Every turn of the loop is one of those. -/
lemma sequence_run (one : Parser Statement) (ts : List Token) :
    (∀ ss rest, (sequence one ts).value = .done ss rest → rest = [] ∧ SequenceRun one ts ss) ∧
    ∀ cause rest, (sequence one ts).value = .stop cause rest → SequenceHalt one ts cause rest := by
  fun_induction sequence one ts with
  | case1 =>
    refine ⟨?_, by rintro cause rest ⟨⟩⟩
    rintro ss rest ⟨⟩
    exact ⟨rfl, .nil⟩
  | case2 t ts first cause rest stopped =>
    refine ⟨by rintro ss rest ⟨⟩, ?_⟩
    rintro _ _ ⟨⟩
    exact .here stopped
  | case3 t ts first s mid read le more ih =>
    constructor
    · intro ss rest h
      obtain ⟨ss, hss, rfl⟩ := Outcome.map_eq_done.mp h
      obtain ⟨hrest, hmore⟩ := ih.1 ss rest hss
      exact ⟨hrest, .cons read le hmore⟩
    · intro cause rest h
      exact .cons read le (ih.2 cause rest (Outcome.map_eq_stop.mp h))
  | case4 t ts first s rest read le =>
    refine ⟨by rintro ss rest ⟨⟩, ?_⟩
    rintro _ _ ⟨⟩
    exact .endless read (Nat.lt_of_not_le le)

theorem sequence_eq_done_iff :
    (sequence one ts).value = .done ss rest ↔ rest = [] ∧ SequenceRun one ts ss := by
  constructor
  · exact (sequence_run one ts).1 ss rest
  · rintro ⟨rfl, h⟩
    induction h with
    | nil => rw [sequence]
    | cons read le _ ih =>
      rw [sequence_cons read le]
      exact Outcome.map_eq_done.mpr ⟨_, ih, rfl⟩

theorem sequence_eq_stop_iff :
    (sequence one ts).value = .stop cause rest ↔ SequenceHalt one ts cause rest := by
  constructor
  · exact (sequence_run one ts).2 cause rest
  · intro h
    induction h with
    | here stopped =>
      rw [sequence]
      simp only [stopped]
    | endless read lt =>
      rw [sequence]
      simp only [read, if_neg (Nat.not_le_of_lt lt)]
    | cons read le _ ih =>
      rw [sequence_cons read le]
      exact Outcome.map_eq_stop.mpr ih

lemma mem_events_sequence {e : Event} (he : e ∈ (sequence one ts).events) :
    ∃ us, e ∈ (one us).events := by
  fun_induction sequence one ts with
  | case1 => cases he
  | case2 t ts first cause rest stopped => exact ⟨_, he⟩
  | case3 t ts first s rest read le more ih =>
    obtain he | he := List.mem_append.mp he
    · exact ⟨_, he⟩
    · exact ih he
  | case4 t ts first s rest read le => exact ⟨_, he⟩

end Sequence

/-- What goes on from the statements of a container to the container holds of all statements, by
induction on the containers that may still be opened. -/
theorem statement_induction {P : Parser Statement → Prop}
    (h : ∀ inner, (∀ nested, inner = some nested → P nested) → P (dispatch inner)) (room : ℕ) :
    P (statement room) := by
  induction room with
  | zero => exact h none (by simp)
  | succ room ih =>
    refine h (some (statement room)) ?_
    rintro nested ⟨⟩
    exact ih

end Parser

section Document

variable {ts : List Token}

lemma parseStatements_eq_ok_iff {ss : List Statement} :
    (parseStatements ts).outcome = .ok ss ↔
      Parser.SequenceRun (Parser.statement maxNesting) ts ss := by
  rw [parseStatements]
  cases hv : (Parser.sequence (Parser.statement maxNesting) ts).value with
  | stop cause rest =>
    refine ⟨by rintro ⟨⟩, fun h => ?_⟩
    cases hv.symm.trans (Parser.sequence_eq_done_iff.mpr ⟨rfl, h⟩)
  | done found rest =>
    obtain ⟨rfl, hrun⟩ := Parser.sequence_eq_done_iff.mp hv
    constructor
    · rintro ⟨⟩
      exact hrun
    · intro h
      obtain ⟨rfl, -⟩ :=
        Outcome.done.inj (hv.symm.trans (Parser.sequence_eq_done_iff.mpr ⟨rfl, h⟩))
      rfl

lemma parseStatements_eq_error_iff {fault : SyntaxFault} :
    (parseStatements ts).outcome = .error fault ↔
      ∃ cause rest, Parser.SequenceHalt (Parser.statement maxNesting) ts cause rest ∧
        SyntaxFault.locate ts cause rest = fault := by
  simp only [← Parser.sequence_eq_stop_iff]
  rw [parseStatements]
  cases (Parser.sequence (Parser.statement maxNesting) ts).value with
  | stop cause rest => simp
  | done ss rest => simp

end Document

end ArchDiagram
