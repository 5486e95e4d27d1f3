import Mathlib.Data.Finset.Lattice.Fold
import ArchDiagram.Proofs.Nesting.Roots

/-! Walks through a diagram from the roots down. Where no id is shared, the walk ends and meets
every entity once: an entity is met for each time its parent is met, and a root once. -/
namespace ArchDiagram
open Declaration

namespace Declaration

variable {es : List Declaration}

/-- Without shared ids the parent of an entity is that of its only last declaration. -/
lemma Unshared.parentOf_eq (h : Unshared es) {e : Declaration} (he : e ∈ latest es) :
    parentOf es e.id = e.parent := by
  have hlast := mem_latest_iff.mp he
  cases hk : e.kind with
  | container =>
    rw [hk] at hlast
    simp [parentOf, hlast]
  | component =>
    have hnone : last? .container e.id es = none := by
      rw [last?_eq_none_iff]
      rintro f hf ⟨hfk, hfi⟩
      have hkinds := h f hf e ((latest_sublist es).subset he) hfi
      rw [hfk, hk] at hkinds
      contradiction
    rw [hk] at hlast
    simp [parentOf, hnone, hlast]

/-- What has a parent was declared. -/
lemma mem_latest_of_parentOf {x p : Id} (h : parentOf es x = some p) :
    x ∈ (latest es).map Declaration.id := by
  obtain ⟨e, he, -⟩ := Option.bind_eq_some_iff.mp h
  have hlast : ∃ kind, last? kind x es = some e := by
    obtain he | ⟨-, he⟩ := Option.or_eq_some_iff.mp he
    · exact ⟨_, he⟩
    · exact ⟨_, he⟩
  obtain ⟨kind, he⟩ := hlast
  obtain ⟨-, rfl, rfl⟩ := last?_eq_some he
  exact List.mem_map_of_mem (mem_latest_iff.mpr he)

lemma Unshared.mem_latestIn_iff (h : Unshared es) {parent : Option Id} {x : Id} :
    x ∈ (latestIn es parent).map Declaration.id ↔
      x ∈ (latest es).map Declaration.id ∧ parentOf es x = parent := by
  simp only [latestIn, List.mem_map, List.mem_filter, decide_eq_true_eq]
  constructor
  · rintro ⟨e, ⟨he, hp⟩, rfl⟩
    exact ⟨⟨e, he, rfl⟩, (h.parentOf_eq he).trans hp⟩
  · rintro ⟨⟨e, he, rfl⟩, hp⟩
    exact ⟨e, ⟨he, (h.parentOf_eq he).symm.trans hp⟩, rfl⟩

lemma Unshared.count_latestIn (h : Unshared es) (parent : Option Id) (x : Id) :
    ((latestIn es parent).map Declaration.id).count x =
      if x ∈ (latest es).map Declaration.id ∧ parentOf es x = parent then 1 else 0 := by
  rw [(h.nodup_latestIn parent).count]
  simp only [h.mem_latestIn_iff]

end Declaration

namespace Diagram

/-- The walk through some entities and all that stands below them ends and has visited the ids of
the second list: each entity, what is below it, and then the entities that follow. -/
inductive Walk (d : Diagram) : List Id → List Id → Prop
  | nil : Walk d [] []
  | cons {x : Id} {xs below after : List Id} (down : Walk d (d.childrenOf x) below)
      (next : Walk d xs after) : Walk d (x :: xs) (x :: (below ++ after))

variable {d : Diagram}

/-- A walk is determined by where it starts. -/
theorem Walk.unique {xs visited visited' : List Id} (h : d.Walk xs visited)
    (h' : d.Walk xs visited') : visited = visited' := by
  induction h generalizing visited' with
  | nil =>
    cases h'
    rfl
  | cons _ _ ihdown ihnext =>
    cases h' with
    | cons down next => rw [ihdown down, ihnext next]

/-- An id is met where the walk starts, and once for each time its parent is met. -/
theorem Walk.count_visited
    (hchildren : ∀ x y, (d.childrenOf x).count y = if d.parentOf y = some x then 1 else 0)
    {xs visited : List Id} (h : d.Walk xs visited) (y : Id) :
    visited.count y = xs.count y + (d.parentOf y).elim 0 fun p => visited.count p := by
  induction h with
  | nil => cases d.parentOf y <;> simp
  | @cons x xs below after _ _ ihdown ihnext =>
    have hx := hchildren x y
    rw [List.count_cons, List.count_append, List.count_cons, ihdown, ihnext, hx]
    cases hp : d.parentOf y with
    | none => simp
    | some p =>
      simp only [Option.elim_some, List.count_cons, List.count_append, Option.some.injEq,
        beq_iff_eq, eq_comm (a := x)]
      omega

/-- Where heights grow towards the children, and not beyond a bound, every walk ends. -/
theorem exists_walk {rank : Id → ℕ} {bound : ℕ}
    (hchildren : ∀ x, ∀ c ∈ d.childrenOf x, rank c = rank x + 1 ∧ rank c ≤ bound) (k : ℕ)
    (xs : List Id) (hxs : ∀ x ∈ xs, rank x ≤ bound ∧ bound < rank x + k) :
    ∃ visited, d.Walk xs visited := by
  -- The outer induction is on the distance to the bound, the inner one goes through siblings.
  induction k generalizing xs with
  | zero =>
    cases xs with
    | nil => exact ⟨_, .nil⟩
    | cons x xs =>
      obtain ⟨hle, hlt⟩ := hxs x List.mem_cons_self
      omega
  | succ k ih =>
    induction xs with
    | nil => exact ⟨_, .nil⟩
    | cons x xs ihxs =>
      obtain ⟨hle, hlt⟩ := hxs x List.mem_cons_self
      obtain ⟨below, hbelow⟩ := ih (d.childrenOf x) fun c hc => by
        obtain ⟨hrank, hbound⟩ := hchildren x c hc
        omega
      obtain ⟨after, hafter⟩ := ihxs fun y hy => hxs y (List.mem_cons_of_mem _ hy)
      exact ⟨_, .cons hbelow hafter⟩

namespace Reflects

variable {es : List Declaration} (h : d.Reflects es) (hu : Unshared es)

include h hu

lemma count_childrenOf (x y : Id) :
    (d.childrenOf x).count y = if d.parentOf y = some x then 1 else 0 := by
  rw [h.children, hu.listing_eq, hu.count_latestIn, h.parentOf_eq]
  by_cases hp : Declaration.parentOf es y = some x
  · rw [if_pos ⟨mem_latest_of_parentOf hp, hp⟩, if_pos hp]
  · rw [if_neg fun hy => hp hy.2, if_neg hp]

/-- The way up from an entity shows that the walk down from the roots meets it once. -/
lemma count_visited (hw : WellNested [] es)
    (hes : es.Pairwise fun a b => a.span.start < b.span.start) {visited : List Id}
    (hv : d.Walk d.roots visited) {n : ℕ} {y : Id} (hn : ancestor d.parentOf n y = none) :
    visited.count y = if y ∈ (latest es).map Declaration.id then 1 else 0 := by
  induction n generalizing y with
  | zero => simp [ancestor] at hn
  | succ n ih =>
    rw [hv.count_visited (h.count_childrenOf hu), h.roots_eq hes, hu.count_latestIn,
      ← h.parentOf_eq]
    cases hp : d.parentOf y with
    | none => simp
    | some p =>
      rw [ancestor, hp] at hn
      have hparent : p ∈ (latest es).map Declaration.id :=
        h.keys_perm.subset (List.mem_append_right _ (h.parentOf_mem hw hp))
      have hy : y ∈ (latest es).map Declaration.id :=
        mem_latest_of_parentOf (h.parentOf_eq ▸ hp)
      simp [ih hn, hparent, hy]

/-- The greatest height of an entity bounds how far the walk from the roots goes down. -/
lemma exists_walk_roots (hw : WellNested [] es)
    (hes : es.Pairwise fun a b => a.span.start < b.span.start) :
    ∃ visited, d.Walk d.roots visited := by
  obtain ⟨rank, hrank⟩ := exists_rank hw.ends
  let ids := ((latest es).map Declaration.id).toFinset
  have hbound : ∀ x ∈ (latest es).map Declaration.id, rank x ≤ ids.sup rank :=
    fun x hx => Finset.le_sup (List.mem_toFinset.mpr hx)
  have hchildren : ∀ x, ∀ c ∈ d.childrenOf x, rank c = rank x + 1 ∧ rank c ≤ ids.sup rank := by
    intro x c hc
    rw [h.children, hu.listing_eq, hu.mem_latestIn_iff] at hc
    exact ⟨hrank c x hc.2, hbound c hc.1⟩
  have hroots : ∀ x ∈ d.roots, rank x ≤ ids.sup rank ∧
      ids.sup rank < rank x + (ids.sup rank + 1) := by
    intro x hx
    rw [h.roots_eq hes, hu.mem_latestIn_iff] at hx
    have hle := hbound x hx.1
    omega
  exact exists_walk hchildren _ d.roots hroots

end Reflects

/-- Without shared ids the walk from the roots ends and visits every component and every container
once; and the roots are what was last declared at top level, in the order of the source. -/
theorem walk_visits_once {source : String} (h : (parse source).outcome = .ok d)
    (hu : Unshared (sourceDeclarations source)) :
    (∃ visited, d.Walk d.roots visited ∧
      (∀ visited', d.Walk d.roots visited' → visited' = visited) ∧ visited.Nodup ∧
      visited.Perm (d.components.keys ++ d.containers.keys)) ∧
    d.roots = (latestIn (sourceDeclarations source) none).map Declaration.id ∧
    (latestIn (sourceDeclarations source) none).Pairwise fun a b => a.span.start < b.span.start := by
  obtain ⟨hr, hw⟩ := parse_reflects h
  have hes := sourceDeclarations_ascending source
  have hends : ∀ x, ∃ n, ancestor d.parentOf n x = none := hr.parentOf_eq ▸ hw.ends
  obtain ⟨visited, hv⟩ := hr.exists_walk_roots hu hw hes
  have hperm : visited.Perm ((latest (sourceDeclarations source)).map Declaration.id) := by
    rw [List.perm_iff_count]
    intro y
    obtain ⟨n, hn⟩ := hends y
    rw [hr.count_visited hu hw hes hv hn, hu.nodup_latest.count]
  refine ⟨⟨visited, hv, ?_, ?_, ?_⟩, hr.roots_eq hes, hes.sublist (latestIn_sublist _ _)⟩
  · intro visited' hv'
    exact hv'.unique hv
  · exact hperm.nodup_iff.mpr hu.nodup_latest
  · exact hperm.trans hr.keys_perm.symm

/-- A container moves into another one with all that it holds. -/
def nestedSource : String :=
  "container a { component x { } }
container b { container a { } }
component z { }"

theorem walk_visits_once_nested : ∃ d visited, (parse nestedSource).outcome = .ok d ∧
    d.roots = ["b", "z"] ∧ d.Walk d.roots visited ∧ visited.Nodup ∧
      visited.Perm (d.components.keys ++ d.containers.keys) := by
  have hrun : (parse nestedSource).outcome.toOption.any (fun _ => true) = true := by
    decide +kernel
  have hlatest : (latestIn (sourceDeclarations nestedSource) none).map Declaration.id =
      ["b", "z"] := by
    decide +kernel
  obtain ⟨d, hd, -⟩ := Attempt.exists_eq_ok hrun
  obtain ⟨⟨visited, hv, -, hnodup, hperm⟩, hroots, -⟩ := walk_visits_once hd (by decide +kernel)
  exact ⟨d, visited, hd, hroots.trans hlatest, hv, hnodup, hperm⟩

end Diagram

end ArchDiagram
