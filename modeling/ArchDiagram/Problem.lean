import ArchDiagram.Diagnostic

/-! What can keep the program from its answer, and how it is put to the user. -/
namespace ArchDiagram

/-- What can go wrong with a file. -/
inductive FileFault where
  | notFound
  | isDirectory
  | notDirectory
  | nameTooLong
  | permissionDenied
  | invalidName
  | invalidText
  /-- Whatever else the system has to say. -/
  | other (message : String)
  | missingSettings (path : String)
  | malformedSettings
deriving DecidableEq, Repr

def FileFault.message : FileFault → String
  | notFound => "No such file or directory (os error 2)"
  | isDirectory => "Is a directory (os error 21)"
  | notDirectory => "Not a directory (os error 20)"
  | nameTooLong => "File name too long (os error 36)"
  | permissionDenied => "Permission denied (os error 13)"
  | invalidName => "file name contained an unexpected NUL byte"
  | invalidText => "stream did not contain valid UTF-8"
  | other message => message
  | missingSettings path => s!"Missing configuration file: {path}"
  | malformedSettings => "Failed to parse TOML configuration:"

/-- A failure keeps the source that its diagnostics point into. -/
inductive Problem where
  | parse (failure : Failure) (source : String)
  | validation (failure : Failure) (source : String)
  | file (fault : FileFault)
deriving DecidableEq

/-- A remark on a part of the source, which `length` bytes from `offset` on are. -/
structure Mark where
  offset : Nat
  length : Nat
  message : String
  primary : Bool
deriving DecidableEq, Repr

/-- One message to the user. -/
structure Report where
  message : String
  code : Option String
  /-- Whether the report is marked as an error. -/
  severe : Bool
  help : Option String
  hasSource : Bool
  /-- `none` if the report points nowhere. -/
  marks : Option (List Mark)
deriving DecidableEq, Repr

def Label.toMark (l : Label) : Mark :=
  ⟨l.span.start, l.span.length, l.message, l.primary⟩

def Diagnostic.toReport (d : Diagnostic) : Report where
  message := d.message
  code := d.code.map Code.text
  severe := true
  help := d.help
  hasSource := true
  marks := if d.labels.isEmpty then none else some (d.labels.map Label.toMark)

namespace Problem

def display : Problem → String
  | parse failure _ | validation failure _ => failure.display
  | file fault => s!"I/O error: {fault.message}"

/-- The diagnostics and their source, if there are any. -/
def failure? : Problem → Option (Failure × String)
  | parse failure source | validation failure source => some (failure, source)
  | file _ => none

/-- One report for each diagnostic, or one for the whole problem. -/
def reports (p : Problem) : List Report :=
  match p.failure? with
  | some (failure, _) => failure.diagnostics.map Diagnostic.toReport
  | none => [⟨p.display, some "isoarch::io", false, none, false, none⟩]

end Problem

end ArchDiagram
