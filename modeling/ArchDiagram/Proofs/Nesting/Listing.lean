import ArchDiagram.Proofs.Statement.Declaration

/-! Which declarations a container lists. Children are listed by id alone, so declaring an entity
again also takes a namesake of the other kind off the list, if both stood in one container. -/
namespace ArchDiagram
namespace Declaration

/-- Declaring `f` after `es` takes the entity off the list of its container: that container also
holds the earlier declaration of the entity that `f` repeats, which has the same id. -/
def Unlists (f : Declaration) (es : List Declaration) (kind : EntityKind) (id : Id) : Prop :=
  f.id = id ∧ f.kind ≠ kind ∧ ∃ e g, last? kind id es = some e ∧ last? f.kind id es = some g ∧
    e.parent = g.parent ∧ e.parent.isSome = true

/-- An entity whose last declaration is followed by one that takes it off the list. -/
def Unlisted (es : List Declaration) (kind : EntityKind) (id : Id) : Prop :=
  ∃ before f after, es = before ++ f :: after ∧ f.Unlists before kind id ∧
    ∀ h ∈ after, h.declares kind id = false

instance (f : Declaration) (es : List Declaration) (kind : EntityKind) (id : Id) :
    Decidable (f.Unlists es kind id) :=
  decidable_of_iff (f.id = id ∧ f.kind ≠ kind ∧ ∃ e ∈ last? kind id es, ∃ g ∈ last? f.kind id es,
    e.parent = g.parent ∧ e.parent.isSome = true) (by simp [Unlists])

/-- Whether an entity is unlisted can be checked position by position. -/
lemma unlisted_iff_get {es : List Declaration} {kind : EntityKind} {id : Id} :
    Unlisted es kind id ↔ ∃ i : Fin es.length, (es.get i).Unlists (es.take i) kind id ∧
      ∀ h ∈ es.drop (i + 1), h.declares kind id = false := by
  constructor
  · rintro ⟨before, f, after, rfl, hf, hafter⟩
    exact ⟨⟨before.length, by simp⟩, by simpa using hf, by simpa using hafter⟩
  · rintro ⟨i, hi, hafter⟩
    exact ⟨es.take i, es.get i, es.drop (i + 1), by simp, hi, hafter⟩

instance (es : List Declaration) (kind : EntityKind) (id : Id) : Decidable (Unlisted es kind id) :=
  decidable_of_iff _ unlisted_iff_get.symm

lemma unlisted_append_singleton {es : List Declaration} {f : Declaration} {kind : EntityKind}
    {id : Id} : Unlisted (es ++ [f]) kind id ↔
      f.declares kind id = false ∧ (Unlisted es kind id ∨ f.Unlists es kind id) := by
  constructor
  · rintro ⟨before, g, after, h, hg, hafter⟩
    obtain rfl | ⟨mid, b, rfl⟩ := after.eq_nil_or_concat'
    · obtain ⟨rfl, hfg⟩ := List.append_inj' h rfl
      obtain rfl : f = g := by simpa using hfg
      refine ⟨?_, Or.inr hg⟩
      simpa [declares] using fun hk => absurd hk hg.2.1
    · rw [← List.cons_append, ← List.append_assoc] at h
      obtain ⟨rfl, hfb⟩ := List.append_inj' h rfl
      obtain rfl : f = b := by simpa using hfb
      refine ⟨hafter f (by simp), Or.inl ⟨before, g, mid, rfl, hg, ?_⟩⟩
      intro h' hh'
      exact hafter h' (by simp [hh'])
  · rintro ⟨hf, ⟨before, g, after, rfl, hg, hafter⟩ | hu⟩
    · refine ⟨before, g, after ++ [f], by simp, hg, ?_⟩
      intro h' hh'
      obtain hh' | hh' := List.mem_append.mp hh'
      · exact hafter h' hh'
      · obtain rfl : h' = f := by simpa using hh'
        exact hf
    · exact ⟨es, f, [], rfl, hu, by simp⟩

/-- The last declarations that are still listed, in the order of the document. -/
def listed (es : List Declaration) : List Declaration :=
  (latest es).filter fun e => ¬ Unlisted es e.kind e.id

theorem mem_listed_iff {es : List Declaration} {e : Declaration} :
    e ∈ listed es ↔ e ∈ latest es ∧ ¬ Unlisted es e.kind e.id := by
  simp [listed]

/-- The ids that a container lists. -/
def listing (es : List Declaration) (c : Id) : List Id :=
  ((listed es).filter fun e => e.parent = some c).map Declaration.id

lemma listed_append_singleton (es : List Declaration) (f : Declaration) :
    listed (es ++ [f]) = (listed es).filter
      (fun e => f.declares e.kind e.id = false ∧ ¬ f.Unlists es e.kind e.id) ++ [f] := by
  rw [listed, listed, latest_append_singleton, List.filter_append, List.filter_filter,
    List.filter_filter]
  congr 1
  · apply List.filter_congr
    intro e _
    rw [Bool.eq_iff_iff]
    simp only [unlisted_append_singleton, Bool.and_eq_true, decide_eq_true_eq, Bool.not_eq_true']
    tauto
  · have hf : ¬ Unlisted (es ++ [f]) f.kind f.id := by
      intro h
      have hd := (unlisted_append_singleton.mp h).1
      simp [declares] at hd
    simp [hf]

/-- What a further declaration `f` leaves on the list of the container `c`. -/
lemma stays_listed_iff {es : List Declaration} {e f : Declaration} {c : Id} (he : e ∈ latest es)
    (hc : e.parent = some c) :
    (f.declares e.kind e.id = false ∧ ¬ f.Unlists es e.kind e.id) ↔
      ((last? f.kind f.id es).bind Declaration.parent = some c → e.id ≠ f.id) := by
  have hlast := mem_latest_iff.mp he
  constructor
  · rintro ⟨hd, hu⟩ hold hid
    obtain ⟨g, hg, hgc⟩ := Option.bind_eq_some_iff.mp hold
    by_cases hk : f.kind = e.kind
    · simp [declares, hk, hid] at hd
    · refine hu ⟨hid.symm, hk, e, g, hlast, hid ▸ hg, hc.trans hgc.symm, ?_⟩
      rw [hc]
      rfl
  · intro h
    constructor
    · rw [Bool.eq_false_iff, Ne, declares_iff]
      rintro ⟨hk, hid⟩
      refine h ?_ hid.symm
      rw [hk, hid, hlast]
      exact hc
    · rintro ⟨hid, -, e', g, he', hg, hp, -⟩
      obtain rfl : e = e' := Option.some.inj (hlast.symm.trans he')
      refine h ?_ hid.symm
      rw [hid, hg]
      exact hp.symm.trans hc

/-- A further declaration takes its id off the list of the container around the earlier one, and
puts it at the end of the list of the container around itself. -/
theorem listing_append_singleton (es : List Declaration) (f : Declaration) (c : Id) :
    listing (es ++ [f]) c =
      (if (last? f.kind f.id es).bind Declaration.parent = some c
        then (listing es c).filter (· != f.id) else listing es c) ++
      (if f.parent = some c then [f.id] else []) := by
  have hstay : ∀ e ∈ listed es, (e.parent = some c ∧ f.declares e.kind e.id = false ∧
      ¬ f.Unlists es e.kind e.id) ↔ (e.parent = some c ∧
        ((last? f.kind f.id es).bind Declaration.parent = some c → e.id ≠ f.id)) := by
    intro e he
    exact and_congr_right fun hc => stays_listed_iff (mem_listed_iff.mp he).1 hc
  rw [listing, listed_append_singleton, List.filter_append, List.map_append, listing,
    List.filter_filter]
  congr 1
  · split_ifs with hold
    · rw [List.filter_map, List.filter_filter]
      congr 1
      apply List.filter_congr
      intro e he
      rw [Bool.eq_iff_iff]
      simpa [hold, and_comm] using hstay e he
    · congr 1
      apply List.filter_congr
      intro e he
      rw [Bool.eq_iff_iff]
      simpa [hold] using hstay e he
  · by_cases hp : f.parent = some c
    · simp [hp]
    · simp [hp]

/-- The last declarations with one id: that of the component and that of the container. -/
def named (es : List Declaration) (id : Id) : List Declaration :=
  (last? .component id es).toList ++ (last? .container id es).toList

theorem filter_id_latest_perm (es : List Declaration) (id : Id) :
    ((latest es).filter fun e => e.id = id).Perm (named es id) := by
  rw [named, ← filter_latest, ← filter_latest]
  refine (List.filter_append_perm (fun e => e.kind = .component) _).symm.trans ?_
  rw [List.filter_filter, List.filter_filter]
  apply List.Perm.of_eq
  congr 1
  apply List.filter_congr
  intro e _
  cases hk : e.kind with
  | component => simp [declares, hk]
  | container => simp [declares, hk]

/-- How often an id is listed in a container: once for each entity with that id whose last
declaration stands there and is still listed. -/
theorem count_listing (es : List Declaration) (c id : Id) :
    (listing es c).count id =
      (named es id).countP fun e => e.parent = some c ∧ ¬ Unlisted es e.kind e.id := by
  rw [← (filter_id_latest_perm es id).countP_eq, listing, listed, List.filter_filter,
    List.count_eq_countP, List.countP_map, List.countP_filter, List.countP_filter]
  apply List.countP_congr
  intro e _
  simp only [Function.comp, Bool.and_eq_true, beq_iff_eq, decide_eq_true_eq]
  tauto

lemma id_of_mem_named {es : List Declaration} {id : Id} {e : Declaration} (h : e ∈ named es id) :
    e.id = id := by
  simp only [named, List.mem_append, Option.mem_toList] at h
  obtain h | h := h
  · exact (last?_eq_some h).2.2
  · exact (last?_eq_some h).2.2

/-- All entities with an id that stand in a container are counted, unless one is not listed. -/
theorem count_listing_eq_iff (es : List Declaration) (c id : Id) :
    (listing es c).count id = (named es id).countP (fun e => e.parent = some c) ↔
      ∀ e ∈ named es id, e.parent = some c → ¬ Unlisted es e.kind id := by
  have hsplit : ((named es id).countP fun e => e.parent = some c ∧ ¬ Unlisted es e.kind e.id) =
      ((named es id).filter fun e => e.parent = some c).countP
        fun e => ¬ Unlisted es e.kind e.id := by
    rw [List.countP_filter]
    apply List.countP_congr
    intro e _
    simp [and_comm]
  have hall : (named es id).countP (fun e => e.parent = some c) =
      ((named es id).filter fun e => e.parent = some c).length := List.countP_eq_length_filter
  rw [count_listing, hsplit, hall, List.countP_eq_length]
  constructor
  · intro h e he hc
    have hu := h e (List.mem_filter.mpr ⟨he, decide_eq_true hc⟩)
    rw [id_of_mem_named he] at hu
    exact of_decide_eq_true hu
  · intro h e he
    obtain ⟨he, hc⟩ := List.mem_filter.mp he
    rw [id_of_mem_named he]
    exact decide_eq_true (h e he (of_decide_eq_true hc))

end Declaration
end ArchDiagram
