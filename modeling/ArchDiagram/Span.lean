/-! Byte ranges of a source text, and values that remember where they stood. -/
namespace ArchDiagram

/-- The half-open byte range from `start` to `stop`. -/
structure Span where
  start : Nat := 0
  stop : Nat := 0
deriving DecidableEq, Repr, Inhabited

namespace Span

def length (s : Span) : Nat :=
  s.stop - s.start

def isEmpty (s : Span) : Bool :=
  s.start == s.stop

/-- The least range that covers both. -/
def union (s t : Span) : Span :=
  ⟨min s.start t.start, max s.stop t.stop⟩

@[simp] theorem start_union (s t : Span) : (s.union t).start = min s.start t.start := rfl

@[simp] theorem stop_union (s t : Span) : (s.union t).stop = max s.stop t.stop := rfl

theorem union_comm (s t : Span) : s.union t = t.union s := by
  simp [union, Nat.min_comm, Nat.max_comm]

theorem union_assoc (s t u : Span) : (s.union t).union u = s.union (t.union u) := by
  simp [union, Nat.min_assoc, Nat.max_assoc]

end Span

/-- A value together with its place in the source. -/
structure Located (α : Type) where
  value : α
  span : Span
deriving DecidableEq, Repr

namespace Located

variable {α β : Type}

def map (f : α → β) (x : Located α) : Located β :=
  ⟨f x.value, x.span⟩

@[simp] theorem value_map (f : α → β) (x : Located α) : (x.map f).value = f x.value := rfl

@[simp] theorem span_map (f : α → β) (x : Located α) : (x.map f).span = x.span := rfl

/-- Equality of the values, wherever they stand. -/
def sameValue [DecidableEq α] (x y : Located α) : Bool :=
  x.value == y.value

end Located

end ArchDiagram
