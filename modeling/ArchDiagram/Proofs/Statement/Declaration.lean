import Mathlib.Data.List.Induction
import ArchDiagram.Proofs.Statement.Occurrence

/-! Declarations of components and containers. Of several declarations of one entity the last one
counts, and the children of a container are read off those last ones. -/
namespace ArchDiagram

inductive EntityKind where
  | component
  | container
deriving DecidableEq, Repr

/-- A declaration as far as nesting is concerned. -/
structure Declaration where
  kind : EntityKind
  id : Id
  /-- The container in whose block the declaration stands directly. -/
  parent : Option Id
  span : Span
deriving DecidableEq

def Occurrence.declaration? (o : Occurrence) : Option Declaration :=
  match o.statement with
  | .component span id _ => some ⟨.component, id.value, o.opened.head?, span⟩
  | .container span id _ _ => some ⟨.container, id.value, o.opened.head?, span⟩
  | _ => none

/-- The declarations among some statements, in their order. -/
def declarations (os : List Occurrence) : List Declaration :=
  os.filterMap Occurrence.declaration?

/-- The declarations of a source text in the order of the text; none if it is no document. -/
def sourceDeclarations (source : String) : List Declaration :=
  match (parseStatements (tokenize source)).outcome with
  | .ok ss => declarations (Statement.occurrencesAll [] ss)
  | .error _ => []

theorem declarations_append_singleton (os : List Occurrence) (o : Occurrence) :
    declarations (os ++ [o]) = declarations os ++ o.declaration?.toList := by
  rw [declarations, List.filterMap_append]
  cases h : o.declaration? with
  | none => simp [declarations, h]
  | some e => simp [declarations, h]

namespace Declaration

def declares (e : Declaration) (kind : EntityKind) (id : Id) : Bool :=
  e.kind = kind && e.id = id

@[simp] theorem declares_iff {e : Declaration} {kind : EntityKind} {id : Id} :
    e.declares kind id = true ↔ e.kind = kind ∧ e.id = id := by
  simp [declares]

/-- The last declaration of an entity. -/
def last? (kind : EntityKind) (id : Id) (es : List Declaration) : Option Declaration :=
  es.reverse.find? fun e => e.declares kind id

theorem last?_append_singleton (kind : EntityKind) (id : Id) (es : List Declaration)
    (e : Declaration) :
    last? kind id (es ++ [e]) = if e.declares kind id then some e else last? kind id es := by
  rw [last?, List.reverse_append, List.reverse_singleton, List.singleton_append, List.find?_cons]
  cases e.declares kind id <;> rfl

theorem last?_eq_some {kind : EntityKind} {id : Id} {es : List Declaration} {e : Declaration}
    (h : last? kind id es = some e) : e ∈ es ∧ e.kind = kind ∧ e.id = id := by
  refine ⟨List.mem_reverse.mp (List.mem_of_find?_eq_some h), ?_⟩
  simpa using List.find?_some h

theorem last?_eq_none_iff {kind : EntityKind} {id : Id} {es : List Declaration} :
    last? kind id es = none ↔ ∀ e ∈ es, ¬ (e.kind = kind ∧ e.id = id) := by
  simp [last?]

/-- The declarations that no later one replaces, in the order of the document. -/
def latest : List Declaration → List Declaration
  | [] => []
  | e :: es => if es.any (·.declares e.kind e.id) then latest es else e :: latest es

theorem latest_sublist (es : List Declaration) : (latest es).Sublist es := by
  induction es with
  | nil => exact List.Sublist.refl _
  | cons e es ih =>
    rw [latest]
    split_ifs
    · exact ih.cons e
    · exact ih.cons_cons e

/-- No two of the last declarations are of one entity. -/
lemma latest_pairwise (es : List Declaration) :
    (latest es).Pairwise fun a b => ¬ (b.kind = a.kind ∧ b.id = a.id) := by
  induction es with
  | nil => exact .nil
  | cons e es ih =>
    rw [latest]
    split_ifs with he
    · exact ih
    · refine List.pairwise_cons.mpr ⟨?_, ih⟩
      intro f hf hd
      apply he
      rw [List.any_eq_true]
      exact ⟨f, (latest_sublist es).subset hf, declares_iff.mpr hd⟩

lemma nodup_latest (es : List Declaration) : (latest es).Nodup := by
  refine (latest_pairwise es).imp ?_
  rintro a b hne rfl
  exact hne ⟨rfl, rfl⟩

/-- A further declaration replaces the one that it repeats. -/
theorem latest_append_singleton (es : List Declaration) (f : Declaration) :
    latest (es ++ [f]) = (latest es).filter (fun e => !f.declares e.kind e.id) ++ [f] := by
  induction es with
  | nil => simp [latest]
  | cons e es ih =>
    rw [List.cons_append, latest, latest, List.any_append, ih]
    by_cases he : es.any (·.declares e.kind e.id) = true
    · simp [he]
    · by_cases hf : f.declares e.kind e.id = true
      · simp [he, hf]
      · simp [he, hf]

/-- An entity has one last declaration, if any. -/
theorem filter_latest (kind : EntityKind) (id : Id) (es : List Declaration) :
    (latest es).filter (·.declares kind id) = (last? kind id es).toList := by
  induction es using List.reverseRecOn with
  | nil => rfl
  | append_singleton es f ih =>
    rw [latest_append_singleton, last?_append_singleton, List.filter_append, List.filter_filter]
    by_cases hf : f.declares kind id = true
    · have hnone : (latest es).filter
          (fun e => e.declares kind id && !f.declares e.kind e.id) = [] := by
        rw [List.filter_eq_nil_iff]
        intro e _ he
        rw [Bool.and_eq_true, declares_iff] at he
        obtain ⟨⟨hk, hi⟩, hne⟩ := he
        rw [hk, hi, hf] at hne
        contradiction
      simp [hnone, hf]
    · have hsame : (latest es).filter (fun e => e.declares kind id && !f.declares e.kind e.id) =
          (latest es).filter (·.declares kind id) := by
        apply List.filter_congr
        intro e _
        by_cases he : e.declares kind id = true
        · obtain ⟨hk, hi⟩ := declares_iff.mp he
          simp [he, hk, hi, hf]
        · simp [he]
      simp [hsame, ih, hf]

theorem mem_latest_iff {es : List Declaration} {e : Declaration} :
    e ∈ latest es ↔ last? e.kind e.id es = some e := by
  have h : e ∈ (latest es).filter (·.declares e.kind e.id) ↔ e ∈ latest es := by simp
  rw [← h, filter_latest, Option.mem_toList]

end Declaration

end ArchDiagram
