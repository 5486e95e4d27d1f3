import ArchDiagram.Proofs.Diagram.Draft

/-! Statements without effect. Inside a container only components and containers count, so a
document says the same without the other statements in its containers: building goes statement by
statement, and placing one of those leaves the draft as it was. -/
namespace ArchDiagram

namespace Statement

/-- Whether the statement declares a component or a container. -/
def declaresEntity : Statement → Bool
  | .component .. | .container .. => true
  | .layout .. | .style .. | .relation .. | .note .. => false

mutual

/-- The statement without the layouts, styles, relations and annotations inside it, at any depth. -/
def pruned : Statement → Statement
  | .container span id ps body => .container span id ps (prunedBody body)
  | s => s

/-- What is left of the body of a container. -/
def prunedBody : List Statement → List Statement
  | [] => []
  | s :: ss => if s.declaresEntity then s.pruned :: prunedBody ss else prunedBody ss

end

end Statement

namespace Occurrence
open Statement

/-- Whether the statement counts where it stands. -/
def counts (o : Occurrence) : Bool :=
  o.opened.isEmpty || o.statement.declaresEntity

def pruned (o : Occurrence) : Occurrence :=
  ⟨o.opened, o.statement.pruned⟩

/-- A statement is placed without a look at its body. -/
lemma place_pruned (d : Draft) (o : Occurrence) : o.pruned.place d = o.place d := by
  obtain ⟨opened, s⟩ := o
  cases s <;> simp [pruned, Statement.pruned, place]

/-- A statement that does not count leaves the draft as it was. -/
lemma outcome_place_of_counts {o : Occurrence} (h : o.counts = false) (d : Draft) :
    (o.place d).outcome = .ok d := by
  obtain ⟨opened, s⟩ := o
  obtain ⟨hopened, hs⟩ := Bool.or_eq_false_iff.mp h
  have hopened : opened.isEmpty = false := hopened
  cases s with
  | component | container => cases hs
  | layout | style | relation | note =>
    simp only [place, Draft.place, Draft.outcome_atTop, hopened]
    rfl

/-- Only the statements that count have a part in the draft. -/
theorem outcome_foldlM_counts (os : List Occurrence) : ∀ d : Draft,
    (((os.filter counts).map pruned).foldlM place d).outcome = (os.foldlM place d).outcome := by
  induction os with
  | nil => exact fun d => rfl
  | cons o os ih =>
    intro d
    rw [List.foldlM_cons, Attempt.outcome_bind]
    cases ho : o.counts with
    | true =>
      rw [List.filter_cons_of_pos ho, List.map_cons, List.foldlM_cons, Attempt.outcome_bind,
        place_pruned]
      congr 1
      funext e
      exact ih e
    | false =>
      rw [List.filter_cons_of_neg (by simp [ho]), outcome_place_of_counts ho]
      exact ih d

end Occurrence

namespace Statement
open Occurrence

lemma occurrences_of_declaresEntity {s : Statement} (h : s.declaresEntity = false)
    (opened : List Id) : s.occurrences opened = [⟨opened, s⟩] := by
  cases s with
  | container => cases h
  | _ => simp [occurrences]

mutual

lemma occurrences_pruned {opened : List Id} : ∀ s : Statement,
    counts ⟨opened, s⟩ = true →
      s.pruned.occurrences opened = ((s.occurrences opened).filter counts).map Occurrence.pruned
  | .container span id ps body => by
    intro h
    rw [pruned, occurrences, occurrences, List.filter_cons_of_pos h, List.map_cons,
      occurrencesAll_prunedBody id.value opened body, Occurrence.pruned, pruned]
  | .layout .. | .style .. | .component .. | .relation .. | .note .. => by
    intro h
    simp [occurrences, pruned, Occurrence.pruned, h]

/-- Inside a container, pruning leaves the statements that count. -/
lemma occurrencesAll_prunedBody (p : Id) (opened : List Id) : ∀ ss : List Statement,
    occurrencesAll (p :: opened) (prunedBody ss) =
      ((occurrencesAll (p :: opened) ss).filter counts).map Occurrence.pruned
  | [] => rfl
  | s :: ss => by
    rw [prunedBody, occurrencesAll, List.filter_append, List.map_append,
      ← occurrencesAll_prunedBody p opened ss]
    cases hs : s.declaresEntity with
    | true =>
      rw [if_pos rfl, occurrencesAll, occurrences_pruned s (by simp [counts, hs])]
    | false =>
      rw [if_neg Bool.false_ne_true, occurrences_of_declaresEntity hs,
        List.filter_cons_of_neg (by simp [counts, hs]), List.filter_nil, List.map_nil,
        List.nil_append]

end

/-- Of a document, pruning leaves the statements that count. -/
theorem occurrencesAll_pruned (ss : List Statement) :
    occurrencesAll [] (ss.map pruned) =
      ((occurrencesAll [] ss).filter counts).map Occurrence.pruned := by
  induction ss with
  | nil => rfl
  | cons s ss ih =>
    rw [List.map_cons, occurrencesAll, occurrencesAll, List.filter_append, List.map_append, ih,
      occurrences_pruned s rfl]

end Statement

lemma outcome_buildDiagram (ss : List Statement) : (buildDiagram ss).outcome =
    (Draft.placeAll [] .empty ss).outcome.map Draft.toDiagram := by
  simp only [buildDiagram, Attempt.outcome_bind, Attempt.outcome_lift, Attempt.outcome_pure]
  cases (Draft.placeAll [] .empty ss).outcome <;> rfl

/-- Layouts, styles, relations and annotations inside containers do nothing: a document that keeps
all but these declares the same diagram, or it is refused for the same fault. -/
theorem buildDiagram_pruned (ss : List Statement) :
    Statement.occurrencesAll [] (ss.map Statement.pruned) =
      ((Statement.occurrencesAll [] ss).filter Occurrence.counts).map Occurrence.pruned ∧
    (buildDiagram (ss.map Statement.pruned)).outcome = (buildDiagram ss).outcome := by
  refine ⟨Statement.occurrencesAll_pruned ss, ?_⟩
  rw [outcome_buildDiagram, outcome_buildDiagram, Draft.placeAll_eq_foldlM,
    Draft.placeAll_eq_foldlM, Statement.occurrencesAll_pruned, Occurrence.outcome_foldlM_counts]

end ArchDiagram
