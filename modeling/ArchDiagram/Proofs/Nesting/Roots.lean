import ArchDiagram.Proofs.Nesting.Children

/-! The roots of a diagram: the entities that were last declared at top level, in the order of these
declarations. -/
namespace ArchDiagram
open Declaration

/-- The key by which roots are sorted, with what is listed. -/
def Entity.placed (e : Entity) : ℕ × Id :=
  (e.span.start, e.id)

def Declaration.placed (e : Declaration) : ℕ × Id :=
  (e.span.start, e.id)

/-- Whether declarations come in the order in which they start. -/
def Declaration.startsBy (a b : Declaration) : Bool :=
  a.span.start ≤ b.span.start

namespace Diagram

/-- The declarations that the entities of a diagram remember, components first. -/
def remembered (d : Diagram) : List Declaration :=
  d.components.values.map (fun c => c.toEntity.declaration .component) ++
    d.containers.values.map (fun c => c.toEntity.declaration .container)

/-- The roots are sorted entities; but sorting reads no more of them than starts and ids. -/
lemma roots_eq_mergeSort (d : Diagram) :
    d.roots = ((d.remembered.filter fun e => e.parent = none).mergeSort startsBy).map
      Declaration.id := by
  have hsame : (d.topComponents.map Component.toEntity ++
      d.topContainers.map Container.toEntity).map Entity.placed =
        (d.remembered.filter fun e => e.parent = none).map Declaration.placed := by
    simp only [remembered, List.filter_append, List.filter_map, List.map_append, List.map_map,
      Function.comp_def, Entity.declaration, ← Option.isNone_iff_eq_none, Bool.decide_eq_true]
    rfl
  have hentities := List.map_mergeSort
    (r := fun a b : Entity => decide (a.span.start ≤ b.span.start))
    (s := fun a b : ℕ × Id => decide (a.1 ≤ b.1)) (f := Entity.placed)
    (l := d.topComponents.map Component.toEntity ++ d.topContainers.map Container.toEntity)
    (fun _ _ _ _ => rfl)
  have hdeclarations := List.map_mergeSort (r := startsBy)
    (s := fun a b : ℕ × Id => decide (a.1 ≤ b.1)) (f := Declaration.placed)
    (l := d.remembered.filter fun e => e.parent = none) (fun _ _ _ _ => rfl)
  rw [hsame, ← hdeclarations] at hentities
  have h := congrArg (List.map Prod.snd) hentities
  rw [List.map_map, List.map_map] at h
  exact h

namespace Reflects

variable {d : Diagram} {es : List Declaration} (h : d.Reflects es)

include h

lemma map_id_remembered :
    d.remembered.map Declaration.id = d.components.keys ++ d.containers.keys := by
  rw [remembered, OrderedMap.values, OrderedMap.values, List.map_append]
  simp only [List.map_map]
  congr 1
  · apply List.map_congr_left
    rintro ⟨x, c⟩ hc
    exact h.id_component (OrderedMap.get?_eq_some_iff.mpr hc)
  · apply List.map_congr_left
    rintro ⟨x, c⟩ hc
    exact h.id_container (OrderedMap.get?_eq_some_iff.mpr hc)

lemma mem_remembered_iff {e : Declaration} :
    e ∈ d.remembered ↔ last? e.kind e.id es = some e := by
  simp only [remembered, OrderedMap.values, List.mem_append, List.mem_map, Prod.exists,
    ← OrderedMap.get?_eq_some_iff]
  constructor
  · rintro (⟨c, ⟨x, c, hc, rfl⟩, rfl⟩ | ⟨c, ⟨x, c, hc, rfl⟩, rfl⟩)
    · have hlast := h.last?_component hc
      rwa [← h.id_component hc] at hlast
    · have hlast := h.last?_container hc
      rwa [← h.id_container hc] at hlast
  · intro he
    cases hk : e.kind with
    | component =>
      rw [hk, ← h.components] at he
      obtain ⟨c, hc, rfl⟩ := Option.map_eq_some_iff.mp he
      exact Or.inl ⟨c, ⟨_, c, hc, rfl⟩, rfl⟩
    | container =>
      rw [hk, ← h.containers] at he
      obtain ⟨c, hc, rfl⟩ := Option.map_eq_some_iff.mp he
      exact Or.inr ⟨c, ⟨_, c, hc, rfl⟩, rfl⟩

lemma nodup_remembered : d.remembered.Nodup := by
  have hids := h.map_id_remembered
  rw [remembered, List.map_append] at hids
  have hlength : (d.components.values.map fun c => c.toEntity.declaration .component).length =
      d.components.keys.length := by
    simp [OrderedMap.values, OrderedMap.keys]
  obtain ⟨hcomponents, hcontainers⟩ := List.append_inj hids (by rw [List.length_map, hlength])
  refine List.nodup_append.mpr ⟨?_, ?_, ?_⟩
  · exact List.Nodup.of_map _ (hcomponents ▸ d.components.nodup)
  · exact List.Nodup.of_map _ (hcontainers ▸ d.containers.nodup)
  · rintro a ha b hb rfl
    obtain ⟨c, -, rfl⟩ := List.mem_map.mp ha
    obtain ⟨k, -, hk⟩ := List.mem_map.mp hb
    have hkind := congrArg Declaration.kind hk
    contradiction

/-- A diagram remembers the last declarations, though not in their order. -/
theorem remembered_perm : d.remembered.Perm (latest es) := by
  rw [List.perm_ext_iff_of_nodup h.nodup_remembered (nodup_latest es)]
  intro e
  rw [h.mem_remembered_iff, mem_latest_iff]

lemma keys_perm :
    (d.components.keys ++ d.containers.keys).Perm ((latest es).map Declaration.id) := by
  rw [← h.map_id_remembered]
  exact h.remembered_perm.map _

/-- Where declarations come in the order of their starts, sorting brings that order back. -/
theorem roots_eq (hes : es.Pairwise fun a b => a.span.start < b.span.start) :
    d.roots = (latestIn es none).map Declaration.id := by
  have hlatest : (latestIn es none).Pairwise fun a b => a.span.start < b.span.start :=
    hes.sublist (latestIn_sublist es none)
  have hperm : ((d.remembered.filter fun e => e.parent = none).mergeSort startsBy).Perm
      (latestIn es none) :=
    (List.mergeSort_perm _ _).trans (h.remembered_perm.filter _)
  have hsorted : ((d.remembered.filter fun e => e.parent = none).mergeSort startsBy).Pairwise
      fun a b => startsBy a b = true := by
    apply List.pairwise_mergeSort
    · intro a b c hab hbc
      simp only [startsBy, decide_eq_true_eq] at *
      omega
    · intro a b
      simp only [startsBy, Bool.or_eq_true, decide_eq_true_eq]
      omega
  rw [roots_eq_mergeSort]
  congr 1
  refine hperm.eq_of_pairwise ?_ hsorted (hlatest.imp fun hab => decide_eq_true hab.le)
  intro a b ha hb hab hba
  have hstarts : ((latestIn es none).map fun e => e.span.start).Nodup :=
    List.pairwise_map.mpr (hlatest.imp Nat.ne_of_lt)
  refine List.inj_on_of_nodup_map hstarts (hperm.subset ha) hb ?_
  exact Nat.le_antisymm (of_decide_eq_true hab) (of_decide_eq_true hba)

end Reflects

end Diagram

end ArchDiagram
