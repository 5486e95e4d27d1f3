import ArchDiagram.Diagram.Style
import ArchDiagram.Token.Basic

/-! Statements as they are written: names and values are kept as text. -/
namespace ArchDiagram

/-- A pair `name = value` of a layout or a style. -/
structure Attribute where
  name : Located String
  value : Located String
deriving DecidableEq

/-- The properties that a block can set. -/
inductive Field where
  | label
  | type
  | style
  | width
  | height
  | tooltip
  | link
deriving DecidableEq, Repr

def Field.name : Field → String
  | label => "label"
  | type => "type"
  | style => "style"
  | width => "width"
  | height => "height"
  | tooltip => "tooltip"
  | link => "link"

/-- A pair `name value` of a block. -/
structure Property where
  field : Located Field
  value : Located String
deriving DecidableEq

/-- A statement, from its keyword to its last token. -/
inductive Statement where
  | layout (span : Span) (attributes : List Attribute)
  | style (span : Span) (name : Located Id) (attributes : List Attribute)
  | component (span : Span) (id : Located Id) (properties : List Property)
  | container (span : Span) (id : Located Id) (properties : List Property) (body : List Statement)
  | relation (span : Span) (source target : Located Id) (label : Option (Located String))
  | note (span : Span) (target : Located Id) (properties : List Property)

namespace Statement

def span : Statement → Span
  | layout s _ | style s _ _ | component s _ _ | container s _ _ _ | relation s _ _ _
  | note s _ _ => s

def keyword : Statement → Keyword
  | layout .. => .layout
  | style .. => .style
  | component .. => .component
  | container .. => .container
  | relation .. => .relation
  | note .. => .note

end Statement

end ArchDiagram
