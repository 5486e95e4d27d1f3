import Mathlib.Data.Nat.Find
import ArchDiagram.Proofs.Statement.Declaration

/-! The way up from an entity to the containers around it. Where a block is open the containers
around it form a chain up to top level, and an entity that is declared there comes in front of this
chain; so the way up always ends, however often and wherever containers are declared again. -/
namespace ArchDiagram

/-- The id that is reached by going from an id to its parent a number of times. -/
def ancestor (parent : Id → Option Id) : Nat → Id → Option Id
  | 0, x => some x
  | n + 1, x => (parent x).bind (ancestor parent n)

/-- A list in which each id is followed by its parent, up to one without a parent. -/
def IsAscent (parent : Id → Option Id) : List Id → Prop
  | [] => True
  | x :: xs => parent x = xs.head? ∧ IsAscent parent xs

instance IsAscent.decidable (parent : Id → Option Id) :
    (xs : List Id) → Decidable (IsAscent parent xs)
  | [] => inferInstanceAs (Decidable True)
  | x :: xs =>
    have := IsAscent.decidable parent xs
    inferInstanceAs (Decidable (parent x = xs.head? ∧ IsAscent parent xs))

section

variable {parent parent' : Id → Option Id}

lemma IsAscent.suffix {xs ys : List Id} (h : IsAscent parent ys) (hs : xs <:+ ys) :
    IsAscent parent xs := by
  induction ys with
  | nil =>
    rw [List.suffix_nil.mp hs]
    trivial
  | cons y ys ih =>
    obtain rfl | hs := List.suffix_cons_iff.mp hs
    · exact h
    · exact ih h.2 hs

lemma IsAscent.congr {xs : List Id} (h : IsAscent parent xs) (he : ∀ x ∈ xs, parent' x = parent x) :
    IsAscent parent' xs := by
  induction xs with
  | nil => trivial
  | cons x xs ih =>
    refine ⟨?_, ih h.2 fun y hy => he y (List.mem_cons_of_mem _ hy)⟩
    rw [he x List.mem_cons_self]
    exact h.1

lemma IsAscent.ends {xs : List Id} (h : IsAscent parent xs) {x : Id} (hx : x ∈ xs) :
    ∃ n, ancestor parent n x = none := by
  induction xs generalizing x with
  | nil => simp at hx
  | cons y ys ih =>
    obtain rfl | hx := List.mem_cons.mp hx
    · cases ys with
      | nil => exact ⟨1, by rw [ancestor, h.1]; rfl⟩
      | cons z zs =>
        obtain ⟨n, hn⟩ := ih h.2 List.mem_cons_self
        exact ⟨n + 1, by rw [ancestor, h.1]; exact hn⟩
    · exact ih h.2 hx

/-- Putting `x` in front of an ascent in which it does not occur leaves every way up finite. -/
theorem ascents_end_of_move {x : Id} {xs : List Id} (ha : IsAscent parent xs) (hx : x ∉ xs)
    (hnew : parent' x = xs.head?) (hold : ∀ y, y ≠ x → parent' y = parent y)
    (hend : ∀ y, ∃ n, ancestor parent n y = none) (y : Id) : ∃ n, ancestor parent' n y = none := by
  have hfront : IsAscent parent' (x :: xs) := by
    refine ⟨hnew, ha.congr ?_⟩
    intro z hz
    exact hold z (ne_of_mem_of_not_mem hz hx)
  obtain ⟨n, hn⟩ := hend y
  induction n generalizing y with
  | zero => simp [ancestor] at hn
  | succ n ih =>
    by_cases hy : y = x
    · exact hfront.ends (hy ▸ List.mem_cons_self)
    · cases hp : parent y with
      | none => exact ⟨1, by rw [ancestor, hold y hy, hp]; rfl⟩
      | some p =>
        rw [ancestor, hp] at hn
        obtain ⟨m, hm⟩ := ih p hn
        exact ⟨m + 1, by rw [ancestor, hold y hy, hp]; exact hm⟩

/-- Where every way up ends, each id has a height above top level. -/
theorem exists_rank (hend : ∀ x, ∃ n, ancestor parent n x = none) :
    ∃ rank : Id → ℕ, ∀ x p, parent x = some p → rank x = rank p + 1 := by
  refine ⟨fun x => Nat.find (hend x), ?_⟩
  intro x p hp
  rw [Nat.find_eq_iff]
  constructor
  · rw [ancestor, hp]
    exact Nat.find_spec (hend p)
  · intro n hn
    cases n with
    | zero => simp [ancestor]
    | succ n =>
      rw [ancestor, hp]
      exact Nat.find_min (hend p) (Nat.lt_of_succ_lt_succ hn)

lemma rank_eq_of_ancestor {rank : Id → ℕ} (hr : ∀ x p, parent x = some p → rank x = rank p + 1)
    {n : ℕ} {x y : Id} (h : ancestor parent n x = some y) : rank x = rank y + n := by
  induction n generalizing x with
  | zero =>
    obtain rfl : x = y := by simpa [ancestor] using h
    rfl
  | succ n ih =>
    obtain ⟨p, hp, h⟩ := Option.bind_eq_some_iff.mp h
    rw [hr x p hp, ih h]
    omega

/-- Where every way up ends, nothing is its own ancestor. -/
theorem ancestor_ne_self (hend : ∀ x, ∃ n, ancestor parent n x = none) (n : ℕ) (x : Id) :
    ancestor parent (n + 1) x ≠ some x := by
  obtain ⟨rank, hr⟩ := exists_rank hend
  intro h
  have hx := rank_eq_of_ancestor hr h
  omega

/-- A way up that ends leads to an id without a parent. -/
theorem exists_root {n : ℕ} {x : Id} (h : ancestor parent n x = none) :
    ∃ m r, ancestor parent m x = some r ∧ parent r = none := by
  induction n generalizing x with
  | zero => simp [ancestor] at h
  | succ n ih =>
    cases hp : parent x with
    | none => exact ⟨0, x, rfl, hp⟩
    | some p =>
      rw [ancestor, hp] at h
      obtain ⟨m, r, hm, hr⟩ := ih h
      exact ⟨m + 1, r, by rw [ancestor, hp]; exact hm, hr⟩

/-- A way up that ends lists what it passes. -/
lemma exists_ascent {n : ℕ} {x : Id} (h : ancestor parent n x = none) :
    ∃ xs, IsAscent parent (x :: xs) := by
  induction n generalizing x with
  | zero => simp [ancestor] at h
  | succ n ih =>
    cases hp : parent x with
    | none => exact ⟨[], hp, trivial⟩
    | some p =>
      rw [ancestor, hp] at h
      obtain ⟨xs, hxs⟩ := ih h
      exact ⟨p :: xs, hp, hxs⟩

lemma ancestor_invariant {P : Id → Prop} (hP : ∀ x p, P x → parent x = some p → P p) {n : ℕ}
    {x y : Id} (hx : P x) (h : ancestor parent n x = some y) : P y := by
  induction n generalizing x with
  | zero =>
    obtain rfl : x = y := by simpa [ancestor] using h
    exact hx
  | succ n ih =>
    obtain ⟨p, hp, h⟩ := Option.bind_eq_some_iff.mp h
    exact ih (hP x p hx hp) h

end

namespace Declaration

/-- The parent of a container, or else of a component, by its last declaration. -/
def parentOf (es : List Declaration) (x : Id) : Option Id :=
  ((last? .container x es).or (last? .component x es)).bind Declaration.parent

/-- A declaration decides about its own id, except that a component yields to a container. -/
lemma parentOf_append_singleton {es : List Declaration} {f : Declaration}
    (hf : f.kind = .container ∨ last? .container f.id es = none) (x : Id) :
    parentOf (es ++ [f]) x = if x = f.id then f.parent else parentOf es x := by
  obtain ⟨kind, id, p, span⟩ := f
  simp only [parentOf, last?_append_singleton, declares]
  by_cases hx : x = id
  · subst hx
    cases kind with
    | container => simp
    | component =>
      have hnone : last? .container x es = none := by simpa using hf
      simp [hnone]
  · simp [hx, Ne.symm hx]

lemma parentOf_append_component {es : List Declaration} {f : Declaration}
    (hf : f.kind = .component) (hc : (last? .container f.id es).isSome = true) :
    parentOf (es ++ [f]) = parentOf es := by
  funext x
  simp only [parentOf, last?_append_singleton, declares, hf]
  by_cases hx : f.id = x
  · subst hx
    obtain ⟨e, he⟩ := Option.isSome_iff_exists.mp hc
    simp [he]
  · simp [hx]

/-- What the declarations of a document say about nesting at a place inside the containers
`opened`, innermost first. -/
structure WellNested (opened : List Id) (es : List Declaration) : Prop where
  opened_declared : ∀ p ∈ opened, (last? .container p es).isSome = true
  parent_declared : ∀ e ∈ es, ∀ p, e.parent = some p → (last? .container p es).isSome = true
  ascent : IsAscent (parentOf es) opened
  ends : ∀ x, ∃ n, ancestor (parentOf es) n x = none

namespace WellNested

lemma nil : WellNested [] [] where
  opened_declared := by simp
  parent_declared := by simp
  ascent := trivial
  ends _ := ⟨1, rfl⟩

lemma suffix {opened outer : List Id} {es : List Declaration} (h : WellNested outer es)
    (hs : opened <:+ outer) : WellNested opened es where
  opened_declared p hp := h.opened_declared p (hs.subset hp)
  parent_declared := h.parent_declared
  ascent := h.ascent.suffix hs
  ends := h.ends

variable {opened : List Id} {es : List Declaration} {f : Declaration}

lemma isSome_last?_append (kind : EntityKind) {x : Id} (h : (last? kind x es).isSome = true) :
    (last? kind x (es ++ [f])).isSome = true := by
  rw [last?_append_singleton]
  split_ifs
  · rfl
  · exact h

/-- The chain of open containers is that of parents; only a container may not occur in it again. -/
theorem append (h : WellNested opened es) (hp : f.parent = opened.head?)
    (hf : f.kind = .container → f.id ∉ opened) : WellNested opened (es ++ [f]) := by
  have hdeclared : ∀ p ∈ opened, (last? .container p (es ++ [f])).isSome = true :=
    fun p hp => isSome_last?_append _ (h.opened_declared p hp)
  have hparents : ∀ e ∈ es ++ [f], ∀ p, e.parent = some p →
      (last? .container p (es ++ [f])).isSome = true := by
    intro e he p hep
    obtain he | he := List.mem_append.mp he
    · exact isSome_last?_append _ (h.parent_declared e he p hep)
    · obtain rfl : e = f := by simpa using he
      exact hdeclared p (List.mem_of_mem_head? (hp ▸ hep))
  by_cases hc : f.kind = .component ∧ (last? .container f.id es).isSome = true
  · have hsame := parentOf_append_component hc.1 hc.2
    exact ⟨hdeclared, hparents, hsame ▸ h.ascent, hsame ▸ h.ends⟩
  · have hnew : f.kind = .container ∨ last? .container f.id es = none := by
      cases hk : f.kind with
      | container => exact Or.inl rfl
      | component => simpa [hk] using hc
    have hid : f.id ∉ opened := by
      intro hm
      obtain hk | hn := hnew
      · exact hf hk hm
      · have hs := h.opened_declared _ hm
        rw [hn] at hs
        contradiction
    have hupd := parentOf_append_singleton hnew
    have hold : ∀ y, y ≠ f.id → parentOf (es ++ [f]) y = parentOf es y := by
      intro y hy
      rw [hupd, if_neg hy]
    refine ⟨hdeclared, hparents, h.ascent.congr ?_, ?_⟩
    · intro y hy
      exact hold y (ne_of_mem_of_not_mem hy hid)
    · refine ascents_end_of_move h.ascent hid ?_ hold h.ends
      rw [hupd, if_pos rfl, hp]

/-- The same inside the block of a container that was just declared. -/
theorem append_container (h : WellNested opened es) (hp : f.parent = opened.head?)
    (hk : f.kind = .container) (hf : f.id ∉ opened) :
    WellNested (f.id :: opened) (es ++ [f]) := by
  have hw := h.append hp fun _ => hf
  refine ⟨?_, hw.parent_declared, ⟨?_, hw.ascent⟩, hw.ends⟩
  · intro p hm
    obtain rfl | hm := List.mem_cons.mp hm
    · simp [last?_append_singleton, declares, hk]
    · exact hw.opened_declared p hm
  · rw [parentOf_append_singleton (Or.inl hk), if_pos rfl, hp]

/-- No container stands directly in itself. -/
lemma parent_ne_self (h : WellNested opened es) {x : Id} {e : Declaration}
    (he : last? .container x es = some e) : e.parent ≠ some x := by
  intro hp
  apply ancestor_ne_self h.ends 0 x
  simp [ancestor, parentOf, he, hp]

end WellNested

end Declaration

end ArchDiagram
