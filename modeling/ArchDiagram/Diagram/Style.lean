import ArchDiagram.OrderedMap

/-! Named visual templates. -/
namespace ArchDiagram

/-- The name of an entity, a style or an attribute. -/
abbrev Id := String

/-- Ids in increasing order of their characters, which is that of their bytes. -/
def sortIds (ids : List Id) : List Id :=
  ids.mergeSort fun a b => a ≤ b

inductive Shape where
  | rectangle
  | pyramid
  | cylinder
deriving DecidableEq, Repr, Inhabited

namespace Shape

def name : Shape → String
  | rectangle => "rectangle"
  | pyramid => "pyramid"
  | cylinder => "cylinder"

def ofName? (s : String) : Option Shape :=
  [rectangle, pyramid, cylinder].find? fun shape => shape.name == s

/-- What is said of a text that names no shape. -/
def unsupported : String :=
  "Unsupported shape"

@[simp] theorem ofName?_name (s : Shape) : ofName? s.name = some s := by
  cases s <;> decide

end Shape

/-- A style: four fields, and every other attribute as it was written. -/
structure Style where
  name : Id
  icon : Option String
  color : String
  image : Option String
  shape : Shape
  properties : OrderedMap String String
deriving DecidableEq

namespace Style

def defaultColor : String :=
  "#4A90E2"

def new (name : Id) : Style :=
  ⟨name, none, defaultColor, none, .rectangle, ∅⟩

/-- Equality up to the order of the further properties. -/
def agrees (s t : Style) : Bool :=
  s.name == t.name && s.icon == t.icon && s.color == t.color && s.image == t.image &&
    s.shape == t.shape && s.properties.agrees (· == ·) t.properties

end Style

end ArchDiagram
