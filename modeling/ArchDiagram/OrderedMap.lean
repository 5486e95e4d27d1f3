/-! Maps that list their entries in the order in which the keys first came. -/
namespace ArchDiagram

/-- Entries with distinct keys, oldest key first. -/
structure OrderedMap (α β : Type) where
  entries : List (α × β)
  nodup_keys : (entries.map Prod.fst).Nodup

namespace OrderedMap

variable {α β : Type}

def empty : OrderedMap α β :=
  ⟨[], List.nodup_nil⟩

instance : Inhabited (OrderedMap α β) := ⟨empty⟩

instance : EmptyCollection (OrderedMap α β) := ⟨empty⟩

def keys (m : OrderedMap α β) : List α :=
  m.entries.map Prod.fst

def values (m : OrderedMap α β) : List β :=
  m.entries.map Prod.snd

def size (m : OrderedMap α β) : Nat :=
  m.entries.length

theorem nodup (m : OrderedMap α β) : m.keys.Nodup :=
  m.nodup_keys

@[simp] theorem entries_empty : (∅ : OrderedMap α β).entries = [] := rfl

@[simp] theorem keys_empty : (∅ : OrderedMap α β).keys = [] := rfl

@[ext] theorem ext {m n : OrderedMap α β} (h : m.entries = n.entries) : m = n := by
  cases m; cases n; simp_all

instance [DecidableEq α] [DecidableEq β] : DecidableEq (OrderedMap α β) := fun m n =>
  decidable_of_iff (m.entries = n.entries) ⟨ext, fun h => h ▸ rfl⟩

variable [DecidableEq α]

def get? (m : OrderedMap α β) (k : α) : Option β :=
  (m.entries.find? fun e => e.1 = k).map Prod.snd

def contains (m : OrderedMap α β) (k : α) : Bool :=
  k ∈ m.keys

/-- The position of a key, counted from the oldest. -/
def position (m : OrderedMap α β) (k : α) : Nat :=
  m.keys.idxOf k

/-- Gives `k` the value `v` in place, or adds the entry at the end. -/
def putEntry (k : α) (v : β) : List (α × β) → List (α × β)
  | [] => [(k, v)]
  | e :: es => if e.1 = k then (k, v) :: es else e :: putEntry k v es

theorem map_fst_putEntry (k : α) (v : β) (es : List (α × β)) :
    (putEntry k v es).map Prod.fst =
      if k ∈ es.map Prod.fst then es.map Prod.fst else es.map Prod.fst ++ [k] := by
  induction es with
  | nil => simp [putEntry]
  | cons e es ih =>
    by_cases h : e.1 = k
    · simp [putEntry, h]
    · have hk : k ≠ e.1 := fun h' => h h'.symm
      by_cases hm : k ∈ es.map Prod.fst
      · simp only [putEntry, h, if_false, List.map_cons, ih, hm, if_true, List.mem_cons, hk, false_or]
      · simp only [putEntry, h, if_false, List.map_cons, ih, hm, List.mem_cons, hk, false_or,
          List.cons_append]

/-- A repeated key keeps its position and takes the new value. -/
def insert (m : OrderedMap α β) (k : α) (v : β) : OrderedMap α β where
  entries := putEntry k v m.entries
  nodup_keys := by
    rw [map_fst_putEntry]
    split
    · exact m.nodup_keys
    · rename_i h
      rw [List.nodup_append]
      refine ⟨m.nodup_keys, by simp, ?_⟩
      intro a ha b hb hab
      rw [List.mem_singleton] at hb
      exact h (hb ▸ hab ▸ ha)

/-- Changes the value of a present key and leaves any other map alone. -/
def modify (m : OrderedMap α β) (k : α) (f : β → β) : OrderedMap α β where
  entries := m.entries.map fun e => if e.1 = k then (e.1, f e.2) else e
  nodup_keys := by
    have h : (m.entries.map fun e => if e.1 = k then (e.1, f e.2) else e).map Prod.fst =
        m.entries.map Prod.fst := by
      rw [List.map_map]
      apply List.map_congr_left
      intro e _
      by_cases he : e.1 = k <;> simp [he]
    rw [h]
    exact m.nodup_keys

theorem keys_insert (m : OrderedMap α β) (k : α) (v : β) :
    (m.insert k v).keys = if k ∈ m.keys then m.keys else m.keys ++ [k] :=
  map_fst_putEntry k v m.entries

@[simp] theorem keys_modify (m : OrderedMap α β) (k : α) (f : β → β) :
    (m.modify k f).keys = m.keys := by
  simp only [keys, modify, List.map_map]
  apply List.map_congr_left
  intro e _
  by_cases he : e.1 = k <;> simp [he]

@[simp] theorem get?_empty (k : α) : (∅ : OrderedMap α β).get? k = none := rfl

theorem find?_putEntry (k : α) (v : β) (es : List (α × β)) (j : α) :
    ((putEntry k v es).find? fun e => e.1 = j) =
      if j = k then some (k, v) else es.find? fun e => e.1 = j := by
  induction es with
  | nil => by_cases h : j = k <;> simp [putEntry, h, eq_comm]
  | cons e es ih =>
    by_cases h : e.1 = k
    · by_cases hj : j = k
      · simp [putEntry, h, hj]
      · have hk : ¬ k = j := fun h' => hj h'.symm
        simp [putEntry, h, hj, hk]
    · by_cases hj : j = k
      · subst hj; simp [putEntry, h, ih]
      · by_cases he : e.1 = j <;> simp [putEntry, h, ih, hj, he]

theorem get?_insert (m : OrderedMap α β) (k : α) (v : β) (j : α) :
    (m.insert k v).get? j = if j = k then some v else m.get? j := by
  by_cases h : j = k <;> simp [get?, insert, find?_putEntry, h]

@[simp] theorem get?_insert_self (m : OrderedMap α β) (k : α) (v : β) :
    (m.insert k v).get? k = some v := by
  simp [get?_insert]

theorem contains_iff (m : OrderedMap α β) (k : α) : m.contains k = true ↔ k ∈ m.keys := by
  simp [contains]

/-- Same keys with related values, in any order. -/
def agrees (same : β → β → Bool) (m n : OrderedMap α β) : Bool :=
  m.size == n.size && m.entries.all fun e => (n.get? e.1).any (same e.2)

end OrderedMap

end ArchDiagram
