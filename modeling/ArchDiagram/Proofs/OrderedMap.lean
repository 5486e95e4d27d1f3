import Mathlib.Data.List.Induction
import Mathlib.Data.List.Nodup
import ArchDiagram.OrderedMap

/-! Lookups in ordered maps, against the entries and after updates; maps that are built up from a list
of pairs, and maps whose values are changed by a function. -/
namespace ArchDiagram
namespace OrderedMap

variable {α β γ : Type}

lemma map_fst_map_snd (f : β → γ) (es : List (α × β)) :
    (es.map fun e => (e.1, f e.2)).map Prod.fst = es.map Prod.fst := by
  rw [List.map_map]
  rfl

/-- The same keys, with changed values. -/
def map (f : β → γ) (m : OrderedMap α β) : OrderedMap α γ where
  entries := m.entries.map fun e => (e.1, f e.2)
  nodup_keys := by
    rw [map_fst_map_snd]
    exact m.nodup_keys

@[simp] theorem keys_map (f : β → γ) (m : OrderedMap α β) : (m.map f).keys = m.keys :=
  map_fst_map_snd f m.entries

@[simp] theorem position_map [DecidableEq α] (f : β → γ) (m : OrderedMap α β) (k : α) :
    (m.map f).position k = m.position k := by
  rw [position, position, keys_map]

@[simp] theorem values_map (f : β → γ) (m : OrderedMap α β) :
    (m.map f).values = m.values.map f := by
  simp [values, map]

variable [DecidableEq α]

lemma find?_entry {es : List (α × β)} (h : (es.map Prod.fst).Nodup) {k : α} {v : β}
    (hm : (k, v) ∈ es) : es.find? (fun e => e.1 = k) = some (k, v) := by
  induction es with
  | nil => simp at hm
  | cons e es ih =>
    simp only [List.map_cons, List.nodup_cons] at h
    obtain rfl | hm := List.mem_cons.mp hm
    · simp
    · have he : e.1 ≠ k := by
        rintro rfl
        exact h.1 (List.mem_map.mpr ⟨_, hm, rfl⟩)
      rw [List.find?_cons_of_neg (by simpa using he)]
      exact ih h.2 hm

/-- Keys are distinct, so a lookup finds the only entry of its key. -/
theorem get?_eq_some_iff {m : OrderedMap α β} {k : α} {v : β} :
    m.get? k = some v ↔ (k, v) ∈ m.entries := by
  constructor
  · intro h
    obtain ⟨⟨j, w⟩, hf, hw⟩ := Option.map_eq_some_iff.mp h
    obtain rfl : w = v := hw
    obtain rfl : j = k := by simpa using List.find?_some hf
    exact List.mem_of_find?_eq_some hf
  · intro h
    rw [get?, find?_entry m.nodup_keys h]
    rfl

theorem mem_keys_iff {m : OrderedMap α β} {k : α} : k ∈ m.keys ↔ ∃ v, m.get? k = some v := by
  simp [keys, get?_eq_some_iff]

theorem mem_values_iff {m : OrderedMap α β} {v : β} : v ∈ m.values ↔ ∃ k, m.get? k = some v := by
  simp [values, get?_eq_some_iff]

theorem get?_eq_none_iff {m : OrderedMap α β} {k : α} : m.get? k = none ↔ k ∉ m.keys := by
  rw [mem_keys_iff, Option.eq_none_iff_forall_ne_some, not_exists]

theorem get?_modify (m : OrderedMap α β) (k : α) (f : β → β) (j : α) :
    (m.modify k f).get? j = (m.get? j).map fun v => if j = k then f v else v := by
  simp only [get?, modify]
  induction m.entries with
  | nil => rfl
  | cons e es ih =>
    by_cases he : e.1 = j
    · by_cases hk : e.1 = k
      · simp [← he, hk]
      · simp [← he, hk]
    · have he' : (if e.1 = k then (e.1, f e.2) else e).1 ≠ j := by split <;> exact he
      rw [List.map_cons, List.find?_cons_of_neg (by simpa using he'),
        List.find?_cons_of_neg (by simpa using he)]
      exact ih

/-- A lookup after an insertion, as one property of all entries. -/
theorem forall_insert {P : α → β → Prop} {m : OrderedMap α β} {k : α} {v : β}
    (hm : ∀ j w, m.get? j = some w → P j w) (hv : P k v) :
    ∀ j w, (m.insert k v).get? j = some w → P j w := by
  intro j w h
  rw [get?_insert] at h
  split_ifs at h with hj
  · obtain rfl := Option.some.inj h
    exact hj ▸ hv
  · exact hm j w h

/-- Keys come in the order in which they were first inserted. -/
lemma keys_insert_of_eq_eraseDups {m : OrderedMap α β} {ks : List α} (h : m.keys = ks.eraseDups)
    {k : α} (v : β) : (m.insert k v).keys = (ks ++ [k]).eraseDups := by
  rw [keys_insert, h, List.eraseDups_append]
  by_cases hk : k ∈ ks
  · simp [hk, List.mem_eraseDups, List.removeAll]
  · simp [hk, List.mem_eraseDups, List.removeAll, List.eraseDups_cons]

def ofPairs (ps : List (α × β)) : OrderedMap α β :=
  ps.foldl (fun m p => m.insert p.1 p.2) ∅

theorem ofPairs_append_singleton (ps : List (α × β)) (p : α × β) :
    ofPairs (ps ++ [p]) = (ofPairs ps).insert p.1 p.2 := by
  simp [ofPairs, List.foldl_append]

/-- Keys come in the order of their first pairs. -/
theorem keys_ofPairs (ps : List (α × β)) : (ofPairs ps).keys = (ps.map Prod.fst).eraseDups := by
  induction ps using List.reverseRecOn with
  | nil => rfl
  | append_singleton ps p ih =>
    rw [ofPairs_append_singleton, List.map_append]
    exact keys_insert_of_eq_eraseDups ih p.2

/-- Each key has the value of its last pair. -/
theorem get?_ofPairs (ps : List (α × β)) (k : α) :
    (ofPairs ps).get? k = (ps.reverse.find? fun p => p.1 = k).map Prod.snd := by
  induction ps using List.reverseRecOn with
  | nil => rfl
  | append_singleton ps p ih =>
    rw [ofPairs_append_singleton, get?_insert, ih, List.reverse_append, List.reverse_singleton,
      List.singleton_append, List.find?_cons]
    by_cases hp : p.1 = k
    · simp [hp]
    · simp [hp, Ne.symm hp]

theorem get?_map (f : β → γ) (m : OrderedMap α β) (k : α) :
    (m.map f).get? k = (m.get? k).map f := by
  simp only [get?, map, List.find?_map, Option.map_map]
  rfl

theorem map_insert (f : β → γ) (m : OrderedMap α β) (k : α) (v : β) :
    (m.insert k v).map f = (m.map f).insert k (f v) := by
  apply ext
  change (putEntry k v m.entries).map _ = putEntry k (f v) (m.entries.map _)
  induction m.entries with
  | nil => rfl
  | cons e es ih =>
    by_cases he : e.1 = k
    · simp [putEntry, he]
    · simp [putEntry, he, ih]

/-- Changes of one value and of all values commute if they do so on each value. -/
theorem map_modify {f : β → γ} {g : β → β} {h : γ → γ} (hfg : ∀ v, f (g v) = h (f v))
    (m : OrderedMap α β) (k : α) : (m.modify k g).map f = (m.map f).modify k h := by
  apply ext
  simp only [map, modify, List.map_map]
  apply List.map_congr_left
  intro e _
  by_cases he : e.1 = k
  · simp [he, hfg]
  · simp [he]

@[simp] theorem modify_id (m : OrderedMap α β) (k : α) : m.modify k (fun v => v) = m := by
  apply ext
  simp [modify]

lemma entries_eq_filterMap (m : OrderedMap α β) :
    m.entries = m.keys.filterMap fun k => (m.get? k).map fun v => (k, v) := by
  have hself : ∀ e ∈ m.entries, (m.get? e.1).map (fun v => (e.1, v)) = some e := by
    intro e he
    rw [get?_eq_some_iff.mpr he]
    rfl
  rw [keys, List.filterMap_map]
  exact List.filterMap_some.symm.trans (List.filterMap_congr hself).symm

/-- A map is made up of its keys in their order and its lookups. -/
theorem ext_get? {m n : OrderedMap α β} (hk : m.keys = n.keys) (h : ∀ k, m.get? k = n.get? k) :
    m = n := by
  apply ext
  rw [entries_eq_filterMap, entries_eq_filterMap, hk]
  simp only [h]

theorem entries_perm {m n : OrderedMap α β} (h : ∀ k, m.get? k = n.get? k) :
    m.entries.Perm n.entries := by
  have hm : m.entries.Nodup := .of_map Prod.fst m.nodup_keys
  have hn : n.entries.Nodup := .of_map Prod.fst n.nodup_keys
  refine (List.perm_ext_iff_of_nodup hm hn).mpr ?_
  rintro ⟨k, v⟩
  rw [← get?_eq_some_iff, ← get?_eq_some_iff, h]

end OrderedMap
end ArchDiagram
