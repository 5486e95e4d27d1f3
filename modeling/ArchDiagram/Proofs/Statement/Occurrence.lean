import Mathlib.Data.List.Infix
import ArchDiagram.Diagram.Source

/-! Documents read statement by statement. A tree of statements is a list of them, each with the
containers that are open around it, and building a diagram is placing these one after the other.
What every placed statement preserves therefore holds of every diagram. -/
namespace ArchDiagram

/-- A statement and the containers around it, innermost first. -/
structure Occurrence where
  opened : List Id
  statement : Statement

namespace Occurrence

/-- The containers that are open where the body of the statement would start. -/
def within (o : Occurrence) : List Id :=
  match o.statement with
  | .container _ id _ _ => id.value :: o.opened
  | _ => o.opened

/-- Adds the statement without its body. -/
def place (d : Draft) (o : Occurrence) : Attempt NestingFault Draft :=
  match o.statement with
  | .container span id ps _ => d.addContainer o.opened id ps span
  | s => d.place o.opened s

/-- Blocks are closed from the inside: each statement stands in containers that were open after the
one before it. -/
inductive Nested : List Id → List Occurrence → Prop
  | nil {opened} : Nested opened []
  | cons {opened o os} (suffix : o.opened <:+ opened) (rest : Nested o.within os) :
    Nested opened (o :: os)

/-- The first statements of a document stand as they would without the others. -/
lemma Nested.of_append {os more : List Occurrence} {opened : List Id}
    (h : Nested opened (os ++ more)) : Nested opened os := by
  induction os generalizing opened with
  | nil => exact .nil
  | cons o os ih =>
    cases h with
    | cons suffix rest => exact .cons suffix (ih rest)

end Occurrence

namespace Statement

mutual

/-- A statement and all that is nested in it, in the order of the source. -/
def occurrences (opened : List Id) : Statement → List Occurrence
  | .container span id ps body =>
    ⟨opened, .container span id ps body⟩ :: occurrencesAll (id.value :: opened) body
  | s => [⟨opened, s⟩]

def occurrencesAll (opened : List Id) : List Statement → List Occurrence
  | [] => []
  | s :: ss => s.occurrences opened ++ occurrencesAll opened ss

end

lemma occurrencesAll_append (opened : List Id) (ss ts : List Statement) :
    occurrencesAll opened (ss ++ ts) = occurrencesAll opened ss ++ occurrencesAll opened ts := by
  induction ss with
  | nil => rfl
  | cons s ss ih => rw [List.cons_append, occurrencesAll, ih, occurrencesAll, List.append_assoc]

lemma mem_occurrencesAll {opened : List Id} {ss : List Statement} {o : Occurrence} :
    o ∈ occurrencesAll opened ss ↔ ∃ s ∈ ss, o ∈ s.occurrences opened := by
  induction ss with
  | nil => simp [occurrencesAll]
  | cons s ss ih => simp [occurrencesAll, ih]

mutual

lemma suffix_of_mem_occurrences (opened : List Id) :
    ∀ s : Statement, ∀ o ∈ s.occurrences opened, opened <:+ o.opened
  | .container span id ps body => by
    intro o ho
    rw [occurrences] at ho
    obtain rfl | ho := List.mem_cons.mp ho
    · exact List.suffix_rfl
    · exact (List.suffix_cons _ _).trans (suffix_of_mem_occurrencesAll (id.value :: opened) body o ho)
  | .layout .. | .style .. | .component .. | .relation .. | .note .. => by
    simp only [occurrences, List.mem_singleton, forall_eq]
    exact List.suffix_rfl

/-- What is nested stands in the containers around it. -/
lemma suffix_of_mem_occurrencesAll (opened : List Id) :
    ∀ ss : List Statement, ∀ o ∈ occurrencesAll opened ss, opened <:+ o.opened
  | [] => by
    intro o ho
    cases ho
  | s :: ss => by
    intro o ho
    rw [occurrencesAll] at ho
    obtain ho | ho := List.mem_append.mp ho
    · exact suffix_of_mem_occurrences opened s o ho
    · exact suffix_of_mem_occurrencesAll opened ss o ho

end

open Occurrence

mutual

theorem nested_occurrences {opened outer : List Id} {rest : List Occurrence}
    (hrest : ∀ st, opened <:+ st → Nested st rest) (ho : opened <:+ outer) :
    ∀ s : Statement, Nested outer (s.occurrences opened ++ rest)
  | .container span id ps body => by
    rw [occurrences, List.cons_append]
    refine .cons ho ?_
    apply nested_occurrencesAll _ List.suffix_rfl
    intro st hst
    exact hrest st ((List.suffix_cons _ _).trans hst)
  | .layout .. | .style .. | .component .. | .relation .. | .note .. => by
    simp only [occurrences, List.singleton_append]
    exact .cons ho (hrest _ List.suffix_rfl)

/-- Whatever follows the statements finds their containers closed again. -/
theorem nested_occurrencesAll {opened outer : List Id} {rest : List Occurrence}
    (hrest : ∀ st, opened <:+ st → Nested st rest) (ho : opened <:+ outer) :
    ∀ ss : List Statement, Nested outer (occurrencesAll opened ss ++ rest)
  | [] => by
    rw [occurrencesAll, List.nil_append]
    exact hrest _ ho
  | s :: ss => by
    rw [occurrencesAll, List.append_assoc]
    apply nested_occurrences _ ho s
    intro st hst
    exact nested_occurrencesAll hrest hst ss

end

theorem nested_document (ss : List Statement) : Nested [] (occurrencesAll [] ss) := by
  have h : Nested [] (occurrencesAll [] ss ++ []) :=
    nested_occurrencesAll (fun _ _ => .nil) List.suffix_rfl ss
  rwa [List.append_nil] at h

end Statement

namespace Attempt

variable {ε α β : Type}

theorem outcome_bind_eq_ok {x : Attempt ε α} {f : α → Attempt ε β} {b : β} :
    (x >>= f).outcome = .ok b ↔ ∃ a, x.outcome = .ok a ∧ (f a).outcome = .ok b := by
  rw [outcome_bind]
  cases hx : x.outcome with
  | error e => simp [Except.bind]
  | ok a => simp [Except.bind]

@[simp] theorem mapError_eq_ok_iff {ε' : Type} {f : ε → ε'} {x : Except ε α} {a : α} :
    x.mapError f = .ok a ↔ x = .ok a := by
  cases x <;> simp [Except.mapError]

/-- An attempt that can be run to its end has a value. -/
theorem exists_eq_ok {x : Attempt ε α} {p : α → Bool} (h : x.outcome.toOption.any p = true) :
    ∃ a, x.outcome = .ok a ∧ p a = true := by
  cases hx : x.outcome with
  | error e =>
    rw [hx] at h
    contradiction
  | ok a =>
    rw [hx] at h
    exact ⟨a, rfl, h⟩

/-- A failure can be seen without a look at what would have been the value. -/
theorem outcome_eq_error {x : Attempt ε α} {e : ε} (h : x.outcome.map (fun _ => ()) = .error e) :
    x.outcome = .error e := by
  cases hx : x.outcome with
  | error e' =>
    rw [hx] at h
    rw [Except.error.inj h]
  | ok a =>
    rw [hx] at h
    cases h

end Attempt

namespace Draft

open Statement

mutual

theorem place_eq_foldlM (opened : List Id) (d : Draft) :
    ∀ s : Statement, d.place opened s = (s.occurrences opened).foldlM Occurrence.place d
  | .container span id ps body => by
    rw [place, occurrences, List.foldlM_cons]
    congr 1
    funext e
    exact placeAll_eq_foldlM _ e body
  | .layout .. | .style .. | .component .. | .relation .. | .note .. => by
    simp [occurrences, Occurrence.place]

/-- The statements of a tree are placed one after the other. -/
theorem placeAll_eq_foldlM (opened : List Id) (d : Draft) :
    ∀ ss : List Statement, placeAll opened d ss = (occurrencesAll opened ss).foldlM Occurrence.place d
  | [] => by rw [placeAll, occurrencesAll, List.foldlM_nil]
  | s :: ss => by
    rw [placeAll, occurrencesAll, List.foldlM_append, place_eq_foldlM opened d s]
    congr 1
    funext e
    exact placeAll_eq_foldlM opened e ss

end

section Induction

variable (Inv : List Id → List Occurrence → Draft → Prop)
  (close : ∀ {opened outer os d}, Inv outer os d → opened <:+ outer → Inv opened os d)
  (step : ∀ {o os d d'}, Inv o.opened os d → (o.place d).outcome = .ok d' →
    Inv o.within (os ++ [o]) d')

include close step

lemma foldlM_place_invariant {outer : List Id} {done os : List Occurrence} {d d' : Draft}
    (hn : Occurrence.Nested outer os) (hd : Inv outer done d)
    (h : (os.foldlM Occurrence.place d).outcome = .ok d') : Inv [] (done ++ os) d' := by
  induction hn generalizing done d with
  | nil =>
    obtain rfl : d = d' := by simpa using h
    rw [List.append_nil]
    exact close hd List.nil_suffix
  | @cons outer o os ho _ ih =>
    rw [List.foldlM_cons, Attempt.outcome_bind_eq_ok] at h
    obtain ⟨e, he, h⟩ := h
    have hi := ih (step (close hd ho) he) h
    rwa [List.append_assoc, List.singleton_append] at hi

/-- What holds of the empty draft, survives the end of a block and is preserved by every statement
holds of every draft that is built. -/
theorem placeAll_invariant (start : Inv [] [] .empty) {ss : List Statement} {d : Draft}
    (h : (placeAll [] .empty ss).outcome = .ok d) : Inv [] (occurrencesAll [] ss) d := by
  rw [placeAll_eq_foldlM] at h
  exact foldlM_place_invariant Inv close step (nested_document ss) start h

end Induction

end Draft

theorem buildDiagram_eq_ok_iff {ss : List Statement} {d : Diagram} :
    (buildDiagram ss).outcome = .ok d ↔
      ∃ e, (Draft.placeAll [] .empty ss).outcome = .ok e ∧ e.toDiagram = d := by
  simp [buildDiagram, Attempt.outcome_bind_eq_ok, -bind_pure_comp]

/-- A source is accepted if its statements can be read and placed. -/
theorem Diagram.parse_eq_ok_iff {source : String} {d : Diagram} :
    (parse source).outcome = .ok d ↔ ∃ ss, (parseStatements (tokenize source)).outcome = .ok ss ∧
      ∃ e, (Draft.placeAll [] .empty ss).outcome = .ok e ∧ e.toDiagram = d := by
  simp [parse, Attempt.outcome_bind_eq_ok, buildDiagram_eq_ok_iff, -bind_pure_comp]

/-- A source is refused for the first fault of its statements, or else for the first one of placing
them. -/
theorem Diagram.outcome_parse (source : String) : (parse source).outcome =
    match (parseStatements (tokenize source)).outcome with
    | .error fault => .error ⟨[fault.diagnostic]⟩
    | .ok ss =>
      match (Draft.placeAll [] .empty ss).outcome with
      | .error fault => .error ⟨[fault.diagnostic]⟩
      | .ok d => .ok d.toDiagram := by
  simp only [parse, buildDiagram, Attempt.outcome_bind, Attempt.outcome_lift,
    Attempt.outcome_mapError, Attempt.outcome_pure]
  cases (parseStatements (tokenize source)).outcome with
  | error fault => rfl
  | ok ss =>
    cases hd : (Draft.placeAll [] .empty ss).outcome with
    | error fault => simp [hd, Except.bind, Except.mapError]
    | ok d => simp [hd, Except.bind, Except.mapError]

end ArchDiagram
