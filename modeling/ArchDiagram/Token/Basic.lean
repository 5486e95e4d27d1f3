import ArchDiagram.Span

/-! The tokens of a diagram source. -/
namespace ArchDiagram

/-- The words that open a statement. -/
inductive Keyword where
  | layout
  | style
  | component
  | container
  | relation
  | note
deriving DecidableEq, Repr

namespace Keyword

def text : Keyword → String
  | layout => "layout"
  | style => "style"
  | component => "component"
  | container => "container"
  | relation => "relation"
  | note => "annotation"

def all : List Keyword :=
  [layout, style, component, container, relation, note]

def ofText? (s : String) : Option Keyword :=
  all.find? fun k => k.text == s

/-- The place of a keyword in `all`. -/
def index (k : Keyword) : Nat :=
  all.idxOf k

@[simp] theorem ofText?_text (k : Keyword) : ofText? k.text = some k := by
  cases k <;> decide

/-- The keywords of the statements that have a block of their own. -/
def opensBlock : Keyword → Bool
  | component | container | note => true
  | layout | style | relation => false

end Keyword

/-- The names that are set aside for properties. `style` is not among them: it is a keyword. -/
def propertyNames : List String :=
  ["label", "type", "tooltip", "link", "icon", "color", "image", "shape", "direction", "ranksep",
    "nodesep", "width", "height"]

inductive TokenKind where
  | keyword (word : Keyword)
  | property
  | identifier
  | number
  | string
  | color
  | arrow
  | leftBrace
  | rightBrace
  | colon
  | equals
  | unknown
deriving DecidableEq, Repr

namespace TokenKind

def name : TokenKind → String
  | keyword _ => "keyword"
  | property => "property"
  | identifier => "identifier"
  | number => "number"
  | string => "string"
  | color => "color"
  | arrow => "arrow"
  | leftBrace => "left brace"
  | rightBrace => "right brace"
  | colon => "colon"
  | equals => "equals"
  | unknown => "unknown"

def keyword? : TokenKind → Option Keyword
  | keyword k => some k
  | _ => none

end TokenKind

/-- A token and its place: a byte range, and a line and column counted from one. -/
structure Token where
  kind : TokenKind
  /-- The text of the token; a string is kept without its quotes. -/
  value : String
  span : Span
  line : Nat
  column : Nat
deriving DecidableEq, Repr

namespace Token

/-- Whether the token can name an entity, a style or an attribute. -/
def isName (t : Token) : Bool :=
  match t.kind with
  | .identifier | .property => true
  | _ => false

def describe (t : Token) : String :=
  s!"{t.kind.name} '{t.value}' at line {t.line}, column {t.column}"

end Token

end ArchDiagram
