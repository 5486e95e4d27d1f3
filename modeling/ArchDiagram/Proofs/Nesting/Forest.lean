import ArchDiagram.Proofs.Nesting.Reflection

/-! The containers of a diagram form a forest, whatever a document declares again and wherever it
does so, also where components and containers share ids. -/
namespace ArchDiagram
open Declaration

namespace Diagram

/-- The entities with an id: a component, a container, or both. -/
def entitiesNamed (d : Diagram) (x : Id) : List Entity :=
  ((d.components.get? x).map Component.toEntity).toList ++
    ((d.containers.get? x).map Container.toEntity).toList

/-- The number of entities with the id `x` whose parent is `c`. -/
def countIn (d : Diagram) (c x : Id) : Nat :=
  (d.entitiesNamed x).countP fun e => e.parent = some c

/-- The parent of the container, or else of the component, with an id. -/
def parentOf (d : Diagram) (x : Id) : Option Id :=
  (((d.containers.get? x).map Container.toEntity).or
    ((d.components.get? x).map Component.toEntity)).bind Entity.parent

/-- Containment is a forest, and the maps are keyed by what they hold. -/
structure IsForest (d : Diagram) : Prop where
  component_parent : ∀ e ∈ d.components.entries, ∀ p, e.2.parent = some p → p ∈ d.containers.keys
  container_parent : ∀ e ∈ d.containers.entries, ∀ p, e.2.parent = some p → p ∈ d.containers.keys
  /-- From every container the way up leads to one without a parent. -/
  reaches_top : ∀ c ∈ d.containers.keys, ∃ n r, ancestor d.parentOf n c = some r ∧
    r ∈ d.containers.keys ∧ d.parentOf r = none
  acyclic : ∀ n c, ancestor d.parentOf (n + 1) c ≠ some c
  child_parent : ∀ e ∈ d.containers.entries, ∀ x ∈ e.2.children,
    ∃ child ∈ d.entitiesNamed x, child.id = x ∧ child.parent = some e.1
  child_count : ∀ e ∈ d.containers.entries, ∀ x, e.2.children.count x ≤ d.countIn e.1 x
  component_key : ∀ e ∈ d.components.entries, e.2.id = e.1
  container_key : ∀ e ∈ d.containers.entries, e.2.id = e.1
  style_key : ∀ e ∈ d.styles.entries, e.2.name = e.1
  note_key : ∀ e ∈ d.notes.entries, e.2.target = e.1

namespace Reflects

variable {d : Diagram} {es : List Declaration} (h : d.Reflects es)

include h

lemma parentOf_eq : d.parentOf = Declaration.parentOf es := by
  funext x
  rw [Diagram.parentOf, Declaration.parentOf, ← h.containers, ← h.components]
  cases d.containers.get? x with
  | none => cases d.components.get? x <;> rfl
  | some c => rfl

/-- The entities with an id are those of its last declarations. -/
lemma countIn_eq (c x : Id) :
    d.countIn c x = (named es x).countP fun e => e.parent = some c := by
  rw [countIn, entitiesNamed, named, ← h.components, ← h.containers]
  cases d.components.get? x <;> cases d.containers.get? x <;> rfl

lemma children_eq {c : Id} {k : Container} (hk : d.containers.get? c = some k) :
    k.children = listing es c := by
  rw [← h.children, childrenOf, hk]
  rfl

/-- An id is listed at most once for each entity that stands in the container. -/
lemma count_children_le {c : Id} {k : Container} (hk : d.containers.get? c = some k) (x : Id) :
    k.children.count x ≤ d.countIn c x := by
  rw [h.children_eq hk, count_listing, h.countIn_eq]
  apply List.countP_mono_left
  intro e _ he
  have he := of_decide_eq_true he
  exact decide_eq_true he.1

/-- A listed id names an entity that stands in the container. -/
lemma exists_child {c : Id} {k : Container} (hk : d.containers.get? c = some k) {x : Id}
    (hx : x ∈ k.children) : ∃ e ∈ d.entitiesNamed x, e.id = x ∧ e.parent = some c := by
  have hpos : 0 < d.countIn c x :=
    (List.count_pos_iff.mpr hx).trans_le (h.count_children_le hk x)
  obtain ⟨e, he, hp⟩ := List.countP_pos_iff.mp hpos
  refine ⟨e, he, ?_, of_decide_eq_true hp⟩
  simp only [entitiesNamed, List.mem_append, Option.mem_toList, Option.map_eq_some_iff] at he
  obtain ⟨c, hc, rfl⟩ | ⟨c, hc, rfl⟩ := he
  · exact h.id_component hc
  · exact h.id_container hc

/-- The parents that occur in a diagram are containers of it. -/
lemma parentOf_mem (hw : WellNested [] es) {x p : Id} (hp : d.parentOf x = some p) :
    p ∈ d.containers.keys := by
  rw [h.parentOf_eq, Declaration.parentOf] at hp
  obtain ⟨e, he, hp⟩ := Option.bind_eq_some_iff.mp hp
  have hes : e ∈ es := by
    obtain he | ⟨-, he⟩ := Option.or_eq_some_iff.mp he
    · exact (last?_eq_some he).1
    · exact (last?_eq_some he).1
  exact h.mem_containers_iff.mpr (hw.parent_declared e hes p hp)

end Reflects

/-- Whatever a source declares, its diagram is a forest. -/
theorem isForest_of_parse {source : String} {d : Diagram}
    (h : (parse source).outcome = .ok d) : d.IsForest := by
  obtain ⟨hr, hw⟩ := parse_reflects h
  have hends : ∀ x, ∃ n, ancestor d.parentOf n x = none := hr.parentOf_eq ▸ hw.ends
  have hparent : ∀ e ∈ sourceDeclarations source, ∀ p, e.parent = some p →
      p ∈ d.containers.keys :=
    fun e he p hp => hr.mem_containers_iff.mpr (hw.parent_declared e he p hp)
  constructor
  · rintro ⟨x, c⟩ hc p hp
    have hlast := hr.last?_component (OrderedMap.get?_eq_some_iff.mpr hc)
    exact hparent _ (last?_eq_some hlast).1 p hp
  · rintro ⟨x, c⟩ hc p hp
    have hlast := hr.last?_container (OrderedMap.get?_eq_some_iff.mpr hc)
    exact hparent _ (last?_eq_some hlast).1 p hp
  · intro c hc
    obtain ⟨n, hn⟩ := hends c
    obtain ⟨m, r, hm, hroot⟩ := exists_root hn
    refine ⟨m, r, hm, ?_, hroot⟩
    exact ancestor_invariant (fun x p _ hp => hr.parentOf_mem hw hp) hc hm
  · exact fun n c => ancestor_ne_self hends n c
  · rintro ⟨c, k⟩ hk x hx
    exact hr.exists_child (OrderedMap.get?_eq_some_iff.mpr hk) hx
  · rintro ⟨c, k⟩ hk x
    exact hr.count_children_le (OrderedMap.get?_eq_some_iff.mpr hk) x
  · rintro ⟨x, c⟩ hc
    exact hr.id_component (OrderedMap.get?_eq_some_iff.mpr hc)
  · rintro ⟨x, c⟩ hc
    exact hr.id_container (OrderedMap.get?_eq_some_iff.mpr hc)
  · rintro ⟨x, s⟩ hs
    exact hr.styles x s (OrderedMap.get?_eq_some_iff.mpr hs)
  · rintro ⟨x, n⟩ hn
    exact hr.notes x n (OrderedMap.get?_eq_some_iff.mpr hn)

/-- Two containers, each of which is declared in a block of the other. -/
def swappedSource : String :=
  "container a { container b { component a { } } }
container b { container a { } }"

theorem isForest_of_swapped : ∃ d, (parse swappedSource).outcome = .ok d ∧
    d.containers.keys = ["a", "b"] ∧ d.IsForest := by
  have hrun : (parse swappedSource).outcome.toOption.any
      (fun d => d.containers.keys = ["a", "b"]) = true := by
    decide +kernel
  obtain ⟨d, hd, hkeys⟩ := Attempt.exists_eq_ok hrun
  exact ⟨d, hd, of_decide_eq_true hkeys, isForest_of_parse hd⟩

end Diagram

end ArchDiagram
