import ArchDiagram.Diagram.Style

/-! What a user can set, and how it is read from a document of nested tables and lists. -/
namespace ArchDiagram

/-- The fallback style, and the spacing of the output. -/
structure Settings where
  color : String := Style.defaultColor
  shape : Shape := .rectangle
  pretty : Bool := true
deriving DecidableEq, Repr

/-- A value of a structured document. Settings hold no numbers, so that one number is as good as
another here, if it can be represented at all. -/
inductive Document where
  | null
  | boolean (b : Bool)
  | number (fits : Bool)
  /-- A date or a time. -/
  | moment
  | text (s : String)
  | list (items : List Document)
  | table (entries : List (String × Document))

/-- In what the formats of documents differ. -/
structure Format where
  /-- Whether a list that stands for a table may have items left over. -/
  surplus : Bool
  /-- The values that can accompany the name of a choice that takes none. -/
  isUnit : Document → Bool

namespace Document

def isNull : Document → Bool
  | null => true
  | _ => false

def isEmptyCollection : Document → Bool
  | list [] | table [] => true
  | _ => false

mutual

/-- Whether all numbers in a document can be represented. -/
def isReadable : Document → Bool
  | number fits => fits
  | list items => areReadable items
  | table entries => entriesReadable entries
  | null | boolean _ | moment | text _ => true

def areReadable : List Document → Bool
  | [] => true
  | d :: ds => d.isReadable && areReadable ds

def entriesReadable : List (String × Document) → Bool
  | [] => true
  | e :: es => e.2.isReadable && entriesReadable es

end

/-- The values of the given keys; those of other keys have to be readable. A list stands for a
table and gives its values in order, and a date or a time stands for a table that gives none. -/
def fields? (f : Format) (keys : List String) : Document → Option (List (Option Document))
  | table entries =>
    if entries.all fun e => keys.contains e.1 || e.2.isReadable then
      some (keys.map fun k => entries.lookup k)
    else none
  | moment => some (keys.map fun _ => none)
  | list items =>
    if f.surplus || items.length ≤ keys.length then
      some ((List.range keys.length).map (items[·]?))
    else none
  | _ => none

/-- A shape is given by its name, also as the only key of a table. -/
def shape? (f : Format) : Document → Option Shape
  | text s => Shape.ofName? s
  | table [(s, v)] => if f.isUnit v then Shape.ofName? s else none
  | _ => none

end Document

namespace Settings

/-- Reads the fallback style; what is not given stays as it is. -/
def readStyle? (f : Format) (s : Settings) (d : Document) : Option Settings :=
  match d.fields? f ["default_color", "default_shape"] with
  | some [color, shape] => do
    let color ← match color with
      | none => some s.color
      | some (.text t) => some t
      | some _ => none
    let shape ← match shape with
      | none => some s.shape
      | some v => v.shape? f
    return { s with color, shape }
  | _ => none

def readOutput? (f : Format) (s : Settings) (d : Document) : Option Settings :=
  match d.fields? f ["pretty"] with
  | some [none] => some s
  | some [some (.boolean pretty)] => some { s with pretty }
  | _ => none

/-- Reads settings; unknown keys are ignored, and values of a wrong kind refused. -/
def read? (f : Format) (d : Document) : Option Settings :=
  match d.fields? f ["style", "output"] with
  | some [style, output] => do
    let s ← style.elim (some {}) (readStyle? f {})
    output.elim (some s) (readOutput? f s)
  | _ => none

end Settings

/-- Documents with a null value, in which the length of a list is checked. -/
def Format.nullable : Format :=
  ⟨false, Document.isNull⟩

end ArchDiagram
