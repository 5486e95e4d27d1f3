import ArchDiagram.Proofs.Statement.Stability

/-! Tokens and statements without their places: every span is the empty one at the start. Parsing
commutes with taking the places away, for no parser decides anything by where a token stands. -/
namespace ArchDiagram

namespace Token

/-- The token without its place. -/
abbrev unplaced (t : Token) : Token :=
  { t with span := {}, line := 0, column := 0 }

@[simp] theorem isName_unplaced (t : Token) : t.unplaced.isName = t.isName := rfl

@[simp] theorem isValueOf_unplaced (name : String) (t : Token) :
    t.unplaced.isValueOf name = t.isValueOf name := rfl

/-- Tokens of the same kinds and values differ in their places only. -/
theorem map_unplaced_eq_iff {ts us : List Token} : ts.map unplaced = us.map unplaced ↔
    (ts.map fun t => (t.kind, t.value)) = us.map fun t => (t.kind, t.value) := by
  have hpair : ∀ ts : List Token, (ts.map fun t => (t.kind, t.value)) =
      (ts.map unplaced).map fun t => (t.kind, t.value) := by
    intro ts
    simp
  have hback : ∀ ts : List Token, ts.map unplaced =
      (ts.map fun t => (t.kind, t.value)).map fun p => ⟨p.1, p.2, {}, 0, 0⟩ := by
    intro ts
    rw [List.map_map]
    rfl
  constructor
  · intro h
    rw [hpair ts, hpair us, h]
  · intro h
    rw [hback ts, hback us, h]

end Token

/-- The value without its place. -/
def Located.unplaced {α : Type} (x : Located α) : Located α :=
  ⟨x.value, {}⟩

@[simp] theorem Located.value_unplaced {α : Type} (x : Located α) : x.unplaced.value = x.value := rfl

@[simp] theorem Located.span_unplaced {α : Type} (x : Located α) : x.unplaced.span = {} := rfl

def Attribute.unplaced (a : Attribute) : Attribute :=
  ⟨a.name.unplaced, a.value.unplaced⟩

def Property.unplaced (p : Property) : Property :=
  ⟨p.field.unplaced, p.value.unplaced⟩

namespace Statement

mutual

/-- The statement without its places. -/
def unplaced : Statement → Statement
  | .layout _ as => .layout {} (as.map Attribute.unplaced)
  | .style _ name as => .style {} name.unplaced (as.map Attribute.unplaced)
  | .component _ id ps => .component {} id.unplaced (ps.map Property.unplaced)
  | .container _ id ps body =>
    .container {} id.unplaced (ps.map Property.unplaced) (unplacedAll body)
  | .relation _ source target label =>
    .relation {} source.unplaced target.unplaced (label.map Located.unplaced)
  | .note _ target ps => .note {} target.unplaced (ps.map Property.unplaced)

def unplacedAll : List Statement → List Statement
  | [] => []
  | s :: ss => s.unplaced :: unplacedAll ss

end

end Statement

def Block.unplaced (b : Block) : Block :=
  ⟨b.properties.map Property.unplaced, Statement.unplacedAll b.body, {}⟩

def Outcome.unplaced {α : Type} (f : α → α) : Outcome α → Outcome α
  | .done a rest => .done (f a) (rest.map Token.unplaced)
  | .stop cause rest => .stop cause (rest.map Token.unplaced)

namespace Parser

variable {α β : Type}

/-- On tokens without places `q` does what `p` does on the tokens themselves, and `f` takes the places
of values away. -/
def Unplaces (f : α → α) (p q : Parser α) : Prop :=
  ∀ ts, (q (ts.map Token.unplaced)).value = (p ts).value.unplaced f

namespace Unplaces

variable {f : α → α} {p q : Parser α} {ts rest : List Token} {a : α} {cause : Cause}

lemma done (h : Unplaces f p q) (hp : (p ts).value = .done a rest) :
    (q (ts.map Token.unplaced)).value = .done (f a) (rest.map Token.unplaced) := by
  rw [h ts, hp]
  rfl

lemma stop (h : Unplaces f p q) (hp : (p ts).value = .stop cause rest) :
    (q (ts.map Token.unplaced)).value = .stop cause (rest.map Token.unplaced) := by
  rw [h ts, hp]
  rfl

/-- What was read is read without places, and what stops stops without places. -/
lemma of_outcomes
    (hdone : ∀ ts a rest, (p ts).value = .done a rest →
      (q (ts.map Token.unplaced)).value = .done (f a) (rest.map Token.unplaced))
    (hstop : ∀ ts cause rest, (p ts).value = .stop cause rest →
      (q (ts.map Token.unplaced)).value = .stop cause (rest.map Token.unplaced)) :
    Unplaces f p q := by
  intro ts
  cases hp : (p ts).value with
  | done a rest => exact hdone ts a rest hp
  | stop cause rest => exact hstop ts cause rest hp

end Unplaces

lemma unplaces_pure {f : α → α} {a b : α} (h : b = f a) :
    Unplaces f (Pure.pure a : Parser α) (Pure.pure b) := by
  intro ts
  rw [h]
  rfl

lemma unplaces_bind {f : α → α} {g : β → β} {p q : Parser α} {k l : α → Parser β}
    (hp : Unplaces f p q) (hk : ∀ a, Unplaces g (k a) (l (f a))) :
    Unplaces g (p >>= k) (q >>= l) := by
  intro ts
  change (Parser.bind q l (ts.map Token.unplaced)).value = (Parser.bind p k ts).value.unplaced g
  simp only [Parser.bind, hp ts]
  cases (p ts).value with
  | done a rest => exact hk a rest
  | stop cause rest => rfl

lemma unplaces_fail {f : α → α} (cause : Cause) : Unplaces f (fail cause) (fail cause) :=
  fun _ => rfl

lemma unplaces_next {f : α → α} {accept : Token → Option α} (what : Expectation)
    (h : ∀ t, accept t.unplaced = (accept t).map f) :
    Unplaces f (next what accept) (next what accept) := by
  intro ts
  cases ts with
  | nil => rfl
  | cons t ts =>
    simp only [List.map_cons, next, h]
    cases accept t with
    | none => rfl
    | some a => rfl

lemma unplaces_punctuation (kind : TokenKind) (what : Expectation) :
    Unplaces (fun _ => {}) (punctuation kind what) (punctuation kind what) := by
  apply unplaces_next
  intro t
  split_ifs <;> rfl

lemma unplaces_identifier : Unplaces Located.unplaced identifier identifier := by
  apply unplaces_next
  intro t
  rw [Token.isName_unplaced]
  split_ifs <;> rfl

lemma forall_head?_unplaced {P : Token → Prop} {ts : List Token} (h : ∀ v ∈ ts.head?, P v.unplaced) :
    ∀ v ∈ (ts.map Token.unplaced).head?, P v := by
  intro v hv
  rw [List.head?_map] at hv
  obtain ⟨u, hu, rfl⟩ := Option.map_eq_some_iff.mp hv
  exact h u hu

lemma attributeAhead_of_unplaced {ts : List Token}
    (h : Grammar.AttributeAhead (ts.map Token.unplaced)) : Grammar.AttributeAhead ts := by
  obtain ⟨n, e, rest, hts, hn, he⟩ := h
  obtain ⟨n', ts', rfl, rfl, hts'⟩ := List.map_eq_cons_iff.mp hts
  obtain ⟨e', rest', rfl, rfl, -⟩ := List.map_eq_cons_iff.mp hts'
  exact ⟨n', e', rest', rfl, hn, he⟩

lemma AttributesRun.unplaced {ts rest : List Token} {as : List Attribute}
    (h : AttributesRun ts as rest) : AttributesRun (ts.map Token.unplaced)
      (as.map Attribute.unplaced) (rest.map Token.unplaced) := by
  induction h with
  | nil behind => exact .nil (mt attributeAhead_of_unplaced behind)
  | cons name equals value _ ih => exact .cons name equals value ih

lemma AttributesHalt.unplaced {ts rest : List Token} (h : AttributesHalt ts rest) :
    AttributesHalt (ts.map Token.unplaced) (rest.map Token.unplaced) := by
  induction h with
  | value name equals missing => exact .value name equals (forall_head?_unplaced missing)
  | cons name equals value _ ih => exact .cons name equals value ih

lemma unplaces_attributes : Unplaces (List.map Attribute.unplaced) attributes attributes := by
  apply Unplaces.of_outcomes
  · intro ts as rest h
    exact attributes_eq_done_iff.mpr (attributes_eq_done_iff.mp h).unplaced
  · intro ts cause rest h
    obtain ⟨hcause, hhalt⟩ := attributes_eq_stop_iff.mp h
    exact attributes_eq_stop_iff.mpr ⟨hcause, hhalt.unplaced⟩

lemma unplaces_relationLabel :
    Unplaces (Option.map Located.unplaced) relationLabel relationLabel := by
  intro ts
  cases ts with
  | nil => rfl
  | cons t ts =>
    simp only [List.map_cons, relationLabel]
    split_ifs with ht
    · refine unplaces_next _ ?_ ts
      intro v
      split_ifs <;> rfl
    · rfl

lemma styleAhead_unplaced (ts : List Token) :
    styleAhead (ts.map Token.unplaced) = styleAhead ts := by
  cases ts with
  | nil => rfl
  | cons t ts =>
    cases ts with
    | nil => rfl
    | cons u ts => cases ts <;> rfl

lemma role_unplaced (kind : BlockKind) (t : Token) (ts : List Token) :
    kind.role t.unplaced (ts.map Token.unplaced) = kind.role t ts := by
  simp only [BlockKind.role, styleAhead_unplaced]

lemma accepts_unplaced (field : Field) (t : Token) : field.accepts t.unplaced = field.accepts t := by
  cases field <;> rfl

section Items

variable {kind : BlockKind} {nested nested' : Parser Statement}
  (h : Unplaces Statement.unplaced nested nested') {ts rest : List Token}

include h

lemma ItemsRun.unplaced {b : Block} (hrun : ItemsRun kind nested ts b rest) :
    ItemsRun kind nested' (ts.map Token.unplaced) b.unplaced (rest.map Token.unplaced) := by
  induction hrun with
  | close role => exact .close ((role_unplaced kind _ _).trans role)
  | skipped role _ ih => exact .skipped ((role_unplaced kind _ _).trans role) ih
  | property role value _ ih =>
    exact .property ((role_unplaced kind _ (_ :: _)).trans role)
      ((accepts_unplaced _ _).trans value) ih
  | statement role read le _ ih =>
    exact .statement ((role_unplaced kind _ _).trans role) (h.done read) (by simpa using le) ih

lemma ItemsHalt.unplaced {cause : Cause} (hhalt : ItemsHalt kind nested ts cause rest) :
    ItemsHalt kind nested' (ts.map Token.unplaced) cause (rest.map Token.unplaced) := by
  induction hhalt with
  | ended => exact .ended
  | refused role => exact .refused ((role_unplaced kind _ _).trans role)
  | @value t rest field role missing =>
    refine .value ((role_unplaced kind t rest).trans role) (forall_head?_unplaced ?_)
    intro v hv
    rw [accepts_unplaced]
    exact missing v hv
  | inside role stopped => exact .inside ((role_unplaced kind _ _).trans role) (h.stop stopped)
  | endless role read lt =>
    exact .endless ((role_unplaced kind _ _).trans role) (h.done read) (by simpa using lt)
  | skipped role _ ih => exact .skipped ((role_unplaced kind _ _).trans role) ih
  | property role value _ ih =>
    exact .property ((role_unplaced kind _ (_ :: _)).trans role)
      ((accepts_unplaced _ _).trans value) ih
  | statement role read le _ ih =>
    exact .statement ((role_unplaced kind _ _).trans role) (h.done read) (by simpa using le) ih

lemma unplaces_items : Unplaces Block.unplaced (items kind nested) (items kind nested') := by
  apply Unplaces.of_outcomes
  · exact fun _ _ _ hrun => items_eq_done_iff.mpr ((items_eq_done_iff.mp hrun).unplaced h)
  · exact fun _ _ _ hhalt => items_eq_stop_iff.mpr ((items_eq_stop_iff.mp hhalt).unplaced h)

end Items

lemma unplaces_block {kind : BlockKind} {nested nested' : Parser Statement}
    (h : Unplaces Statement.unplaced nested nested') :
    Unplaces Block.unplaced (block kind nested) (block kind nested') :=
  unplaces_bind (unplaces_punctuation _ _) fun _ => unplaces_items h

lemma lastValue_unplaced (as : List Attribute) :
    lastValue {} (as.map Attribute.unplaced) = {} := by
  rw [lastValue, List.getLast?_map]
  cases as.getLast? <;> rfl

lemma unplaces_layout (start : Span) :
    Unplaces Statement.unplaced (layout start) (layout {}) := by
  refine unplaces_bind unplaces_attributes ?_
  intro as
  apply unplaces_pure
  rw [lastValue_unplaced]
  rfl

lemma unplaces_style (start : Span) :
    Unplaces Statement.unplaced (style start) (style {}) := by
  refine unplaces_bind unplaces_identifier ?_
  intro name
  refine unplaces_bind unplaces_attributes ?_
  intro as
  apply unplaces_pure
  rw [Located.span_unplaced, lastValue_unplaced]
  rfl

lemma unplaces_relation (start : Span) :
    Unplaces Statement.unplaced (relation start) (relation {}) := by
  refine unplaces_bind unplaces_identifier ?_
  intro source
  refine unplaces_bind (unplaces_punctuation _ _) ?_
  intro arrow
  refine unplaces_bind unplaces_identifier ?_
  intro target
  refine unplaces_bind unplaces_relationLabel ?_
  intro label
  apply unplaces_pure
  cases label <;> rfl

lemma unplaces_component (start : Span) :
    Unplaces Statement.unplaced (component start) (component {}) := by
  refine unplaces_bind unplaces_identifier ?_
  intro id
  refine unplaces_bind (unplaces_block (unplaces_fail _)) ?_
  intro b
  exact unplaces_pure rfl

lemma unplaces_note (start : Span) : Unplaces Statement.unplaced (note start) (note {}) := by
  refine unplaces_bind unplaces_identifier ?_
  intro target
  refine unplaces_bind (unplaces_block (unplaces_fail _)) ?_
  intro b
  exact unplaces_pure rfl

lemma unplaces_container {nested nested' : Parser Statement} (start : Span)
    (h : Unplaces Statement.unplaced nested nested') :
    Unplaces Statement.unplaced (container nested start) (container nested' {}) := by
  refine unplaces_bind unplaces_identifier ?_
  intro id
  refine unplaces_bind (unplaces_block h) ?_
  intro b
  exact unplaces_pure rfl

lemma unplaces_dispatch {inner : Option (Parser Statement)}
    (h : ∀ nested, inner = some nested → Unplaces Statement.unplaced nested nested) :
    Unplaces Statement.unplaced (dispatch inner) (dispatch inner) := by
  intro ts
  cases ts with
  | nil => rfl
  | cons t ts =>
    simp only [List.map_cons, dispatch]
    cases t.kind with
    | keyword word =>
      cases word with
      | layout => exact unplaces_layout t.span ts
      | style => exact unplaces_style t.span ts
      | component => exact unplaces_component t.span ts
      | container =>
        cases inner with
        | none => rfl
        | some nested => exact unplaces_container t.span (h nested rfl) ts
      | relation => exact unplaces_relation t.span ts
      | note => exact unplaces_note t.span ts
    | _ => rfl

theorem unplaces_statement (room : ℕ) :
    Unplaces Statement.unplaced (statement room) (statement room) :=
  statement_induction (P := fun p => Unplaces Statement.unplaced p p)
    (fun _ => unplaces_dispatch) room

section Sequence

variable {one : Parser Statement} (h : Unplaces Statement.unplaced one one) {ts rest : List Token}

include h

lemma SequenceRun.unplaced {ss : List Statement} (hrun : SequenceRun one ts ss) :
    SequenceRun one (ts.map Token.unplaced) (Statement.unplacedAll ss) := by
  induction hrun with
  | nil => exact .nil
  | cons read le _ ih => exact .cons (h.done read) (by simpa using le) ih

lemma SequenceHalt.unplaced {cause : Cause} (hhalt : SequenceHalt one ts cause rest) :
    SequenceHalt one (ts.map Token.unplaced) cause (rest.map Token.unplaced) := by
  induction hhalt with
  | here stopped => exact .here (h.stop stopped)
  | endless read lt => exact .endless (h.done read) (by simpa using lt)
  | cons read le _ ih => exact .cons (h.done read) (by simpa using le) ih

theorem unplaces_sequence : Unplaces Statement.unplacedAll (sequence one) (sequence one) := by
  apply Unplaces.of_outcomes
  · intro ts ss rest hdone
    obtain ⟨rfl, hrun⟩ := sequence_eq_done_iff.mp hdone
    exact sequence_eq_done_iff.mpr ⟨rfl, hrun.unplaced h⟩
  · exact fun _ _ _ hhalt => sequence_eq_stop_iff.mpr ((sequence_eq_stop_iff.mp hhalt).unplaced h)

end Sequence

end Parser

/-- Two lists of tokens are refused for one reason, at tokens with the same index. -/
structure SyntaxFault.Matches (fault fault' : SyntaxFault) (ts us : List Token) : Prop where
  code : fault.diagnostic.code = fault'.diagnostic.code
  index : ∃ i, faultIndex? ts = some i ∧ fault.PointsAt ts i ∧
    faultIndex? us = some i ∧ fault'.PointsAt us i

section TwoLists

open Statement

variable {ts us : List Token} (h : ts.map Token.unplaced = us.map Token.unplaced)

include h

lemma sequence_unplaced_eq :
    (Parser.sequence (Parser.statement maxNesting) ts).value.unplaced unplacedAll =
      (Parser.sequence (Parser.statement maxNesting) us).value.unplaced unplacedAll := by
  have hsame := Parser.unplaces_sequence (Parser.unplaces_statement maxNesting)
  rw [← hsame ts, ← hsame us, h]

theorem parseStatements_ok_of_unplaced_eq {ss : List Statement}
    (hss : (parseStatements ts).outcome = .ok ss) :
    ∃ ss', (parseStatements us).outcome = .ok ss' ∧ unplacedAll ss = unplacedAll ss' := by
  have hdone := Parser.sequence_eq_done_iff.mpr ⟨rfl, parseStatements_eq_ok_iff.mp hss⟩
  have hseq := sequence_unplaced_eq h
  rw [hdone] at hseq
  cases hus : (Parser.sequence (Parser.statement maxNesting) us).value with
  | stop cause rest' =>
    rw [hus] at hseq
    cases hseq
  | done ss' rest' =>
    rw [hus] at hseq
    have hrun := (Parser.sequence_eq_done_iff.mp hus).2
    exact ⟨ss', parseStatements_eq_ok_iff.mpr hrun, (Outcome.done.inj hseq).1⟩

theorem parseStatements_error_of_unplaced_eq {fault : SyntaxFault}
    (hfault : (parseStatements ts).outcome = .error fault) :
    ∃ fault', (parseStatements us).outcome = .error fault' ∧ fault.Matches fault' ts us := by
  obtain ⟨cause, rest, hstop, rfl⟩ := parseStatements_eq_error_iff.mp hfault
  have hseq := sequence_unplaced_eq h
  rw [Parser.sequence_eq_stop_iff.mpr hstop] at hseq
  cases hus : (Parser.sequence (Parser.statement maxNesting) us).value with
  | done ss' rest' =>
    rw [hus] at hseq
    cases hseq
  | stop cause' rest' =>
    rw [hus] at hseq
    obtain ⟨rfl, hrest⟩ := Outcome.stop.inj hseq
    have hstop' := Parser.sequence_eq_stop_iff.mp hus
    refine ⟨_, parseStatements_eq_error_iff.mpr ⟨cause, rest', hstop', rfl⟩, ?_, ?_⟩
    · cases rest with
      | nil =>
        obtain rfl : rest' = [] := List.map_eq_nil_iff.mp hrest.symm
        rfl
      | cons t rest =>
        obtain ⟨u, more, rfl, -, -⟩ := List.map_eq_cons_iff.mp hrest.symm
        rw [SyntaxFault.code_locate_cons, SyntaxFault.code_locate_cons]
    · -- The tokens that were read are as many, for those that are left are as many.
      obtain ⟨used, -, -, rfl, -⟩ := hstop.completed
      obtain ⟨used', -, -, rfl, -⟩ := hstop'.completed
      have hlength : used'.length = used.length := by
        have hall := congrArg List.length h
        have hleft := congrArg List.length hrest
        simp only [List.length_map, List.length_append] at hall hleft
        omega
      refine ⟨used.length, faultIndex?_of_stop hstop, SyntaxFault.pointsAt_locate used cause rest, ?_⟩
      rw [← hlength]
      exact ⟨faultIndex?_of_stop hstop', SyntaxFault.pointsAt_locate used' cause rest'⟩

end TwoLists

end ArchDiagram
