import ArchDiagram.Span

/-! Messages about faulty sources. -/
namespace ArchDiagram

/-- The stage that finds a fault. -/
inductive Category where
  | grammar
  | reference
  | internal
deriving DecidableEq, Repr

def Category.name : Category → String
  | grammar => "syntax"
  | reference => "validation"
  | internal => "internal"

/-- The kinds of fault that have a code. -/
inductive Code where
  | unexpectedToken
  | unexpectedEnd
  | unknownStatement
  | selfNested
  | nestedTooDeeply
  | undefinedSource
  | undefinedTarget
  | undefinedAnnotated
  | undefinedStyle
  | unresolvedContainer
deriving DecidableEq, Repr

namespace Code

def all : List Code :=
  [unexpectedToken, unexpectedEnd, unknownStatement, selfNested, nestedTooDeeply, undefinedSource,
    undefinedTarget, undefinedAnnotated, undefinedStyle, unresolvedContainer]

def text : Code → String
  | unexpectedToken => "E100"
  | unexpectedEnd => "E101"
  | unknownStatement => "E102"
  | selfNested => "E103"
  | nestedTooDeeply => "E104"
  | undefinedSource => "E200"
  | undefinedTarget => "E201"
  | undefinedAnnotated => "E202"
  | undefinedStyle => "E203"
  | unresolvedContainer => "E900"

def ofText? (s : String) : Option Code :=
  all.find? fun c => c.text == s

def description : Code → String
  | unexpectedToken => "unexpected token"
  | unexpectedEnd => "unexpected end of input"
  | unknownStatement => "unknown statement"
  | selfNested => "container nested inside itself"
  | nestedTooDeeply => "containers nested too deeply"
  | undefinedSource => "undefined relation source"
  | undefinedTarget => "undefined relation target"
  | undefinedAnnotated => "undefined annotation target"
  | undefinedStyle => "undefined style"
  | unresolvedContainer => "unresolved container handle"

def category : Code → Category
  | unexpectedToken | unexpectedEnd | unknownStatement | selfNested | nestedTooDeeply => .grammar
  | undefinedSource | undefinedTarget | undefinedAnnotated | undefinedStyle => .reference
  | unresolvedContainer => .internal

@[simp] theorem ofText?_text (c : Code) : ofText? c.text = some c := by
  cases c <;> decide

end Code

/-- A remark on a part of the source. -/
structure Label where
  span : Span
  message : String
  primary : Bool
deriving DecidableEq, Repr

structure Diagnostic where
  message : String
  code : Option Code
  labels : List Label
  help : Option String
deriving DecidableEq, Repr

namespace Diagnostic

def error (message : String) : Diagnostic :=
  ⟨message, none, [], none⟩

def withCode (d : Diagnostic) (code : Code) : Diagnostic :=
  { d with code := some code }

def withLabel (d : Diagnostic) (span : Span) (message : String) : Diagnostic :=
  { d with labels := d.labels ++ [⟨span, message, true⟩] }

def withSecondary (d : Diagnostic) (span : Span) (message : String) : Diagnostic :=
  { d with labels := d.labels ++ [⟨span, message, false⟩] }

def withHelp (d : Diagnostic) (help : String) : Diagnostic :=
  { d with help := some help }

def display (d : Diagnostic) : String :=
  match d.code with
  | some code => s!"error[{code.text}]: {d.message}"
  | none => s!"error: {d.message}"

end Diagnostic

/-- The diagnostics that one source gave rise to. -/
structure Failure where
  diagnostics : List Diagnostic
deriving DecidableEq, Repr

namespace Failure

/-- One line for each diagnostic. -/
def display (f : Failure) : String :=
  "\n".intercalate (f.diagnostics.map Diagnostic.display)

/-- The category of the first diagnostic that has a code. -/
def category? (f : Failure) : Option Category :=
  f.diagnostics.findSome? fun d => d.code.map Code.category

end Failure

end ArchDiagram
