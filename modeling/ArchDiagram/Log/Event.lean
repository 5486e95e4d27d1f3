import ArchDiagram.Number.Shortest
import ArchDiagram.Token.Basic

/-! What the program reports about its own work, and how a report is worded. -/
namespace ArchDiagram

/-- How much a report matters, the gravest first. -/
inductive Level where
  | error
  | warn
  | info
  | debug
  | trace
deriving DecidableEq, Repr

namespace Level

def name : Level → String
  | error => "error"
  | warn => "warn"
  | info => "info"
  | debug => "debug"
  | trace => "trace"

def rank : Level → Nat
  | error => 1
  | warn => 2
  | info => 3
  | debug => 4
  | trace => 5

end Level

/-- The least grave level that is let through; `none` lets nothing through. -/
abbrev Threshold := Option Level

namespace Threshold

def admits (t : Threshold) (l : Level) : Bool :=
  t.any fun bound => l.rank ≤ bound.rank

def name (t : Threshold) : String :=
  t.elim "off" Level.name

/-- Reads the name of a level, or `off`, in any ASCII case. -/
def ofName? (s : String) : Option Threshold :=
  [none, some .error, some .warn, some .info, some .debug, some .trace].find? fun t =>
    (name t).toList == s.toList.map Char.toLower

end Threshold

/-- One report, with its particulars. -/
inductive Event where
  | tokenized (count : Nat)
  | skippedToken (text : String) (line : Nat)
  | parsedStatements (count : Nat)
  | building (statements : Nat)
  | ignoredStatement (keyword : Keyword) (offset : Nat)
  | layoutRedeclared
  | unknownDirection (value : String)
  | unknownLayoutAttribute (name : String)
  | invalidNumber (name value : String) (fallback : Binary64)
  | sizeNotPositive (name : String) (value fallback : Binary64)
  | unknownShape (style value : String)
  | styleRedeclared (name : String)
  | noteRedeclared (target : String)
  | detached (id parent : String)
  | registeredComponent (id : String) (parent : Option String)
  | componentRedeclared (id : String)
  | containerRedeclared (id : String)
  | registeredContainer (id : String) (position : Nat)
  | built (styles components containers relations notes : Nat)
  | parsed
  | referencesValid
  | reading (bytes : Nat)
  | obtained
  | validated
  | defaultStyle (name : String)
  | started (threshold : Threshold)
  | arguments (input : String)
  | processing (input : String) (output : Option String) (check : Bool)
  | settingsExplicit (path : String)
  | settingsLocal (path : String)
  | settingsPlatform (path : String)
  | settingsPlatformAbsent (path : String)
  | settingsPlatformUnknown
  | settingsDefault
  | inputValid (path : String)
  | modelWritten (path : String)
  | completed
deriving DecidableEq

namespace Event

/-- Numbers in reports are written out in full, whole ones without a point. -/
def numberLayout : NumberLayout :=
  ⟨.up, none, false⟩

def level : Event → Level
  | ignoredStatement .. | layoutRedeclared | unknownDirection _ | invalidNumber ..
  | sizeNotPositive .. | unknownShape .. | styleRedeclared _ | noteRedeclared _
  | componentRedeclared _ | containerRedeclared _ => .warn
  | reading _ | started _ | processing .. | settingsExplicit _ | settingsLocal _
  | settingsPlatform _ | inputValid _ | modelWritten _ | completed => .info
  | tokenized _ | skippedToken .. | registeredComponent .. | registeredContainer ..
  | obtained => .trace
  | parsedStatements _ | building _ | unknownLayoutAttribute _ | detached .. | built .. | parsed
  | referencesValid | validated | defaultStyle _ | arguments _ | settingsPlatformAbsent _
  | settingsPlatformUnknown | settingsDefault => .debug

def message : Event → String
  | tokenized _ => "Tokenized source"
  | skippedToken .. => "Skipping token in block"
  | parsedStatements _ => "Parsed statements"
  | building _ => "Building diagram"
  | ignoredStatement .. => "Ignoring statement inside container block"
  | layoutRedeclared => "Layout redeclared, the last declaration wins"
  | unknownDirection _ => "Unknown layout direction, using TB"
  | unknownLayoutAttribute _ => "Ignoring unknown layout attribute"
  | invalidNumber .. => "Invalid number, using default"
  | sizeNotPositive .. => "Size must be positive, using default"
  | unknownShape .. => "Unknown shape, using rectangle"
  | styleRedeclared _ => "Style redeclared, the last declaration wins"
  | noteRedeclared _ => "Annotation redeclared, the last declaration wins"
  | detached .. => "Detached redeclared entity"
  | registeredComponent .. => "Registered component"
  | componentRedeclared _ => "Component redeclared, the last declaration wins"
  | containerRedeclared _ =>
    "Container redeclared, the last declaration wins and keeps its children"
  | registeredContainer .. => "Registered container"
  | built .. => "Diagram built"
  | parsed => "Diagram parsed successfully"
  | referencesValid => "Diagram references are valid"
  | reading _ => "Parsing diagram"
  | obtained => "Parsed diagram"
  | validated => "Diagram validated successfully"
  | defaultStyle _ => "Using the configured default style"
  | started _ => "Starting Isoarch"
  | arguments _ => "Parsed arguments"
  | processing .. => "Processing diagram"
  | settingsExplicit _ => "Loading configuration from explicit path"
  | settingsLocal _ => "Loading configuration from local path"
  | settingsPlatform _ => "Loading configuration from system path"
  | settingsPlatformAbsent _ => "System configuration file not found"
  | settingsPlatformUnknown => "Could not determine platform-specific config directory"
  | settingsDefault => "No configuration file found, using default configuration"
  | inputValid _ => "Diagram is valid"
  | modelWritten _ => "Diagram model written"
  | completed => "Completed successfully"

/-- The particulars of a report, each under its key. -/
def details : Event → List (String × String)
  | tokenized n => [("count", s!"{n}")]
  | skippedToken text line => [("token", text), ("line", s!"{line}")]
  | parsedStatements n | building n => [("statements", s!"{n}")]
  | ignoredStatement keyword offset => [("statement", keyword.text), ("offset", s!"{offset}")]
  | unknownDirection value => [("value", value)]
  | unknownLayoutAttribute name => [("attribute", name)]
  | invalidNumber name value fallback =>
    [("attribute", name), ("value", value), ("fallback", numberLayout.write fallback)]
  | sizeNotPositive name value fallback =>
    [("attribute", name), ("value", numberLayout.write value),
      ("fallback", numberLayout.write fallback)]
  | unknownShape style value => [("style", style), ("value", value)]
  | styleRedeclared name | defaultStyle name => [("style", name)]
  | noteRedeclared target => [("target", target)]
  | detached id parent => [("id", id), ("parent", parent)]
  | registeredComponent id parent =>
    [("id", id), ("parent", parent.elim "None" fun p => s!"Some(Id(\"{p}\"))")]
  | componentRedeclared id | containerRedeclared id => [("id", id)]
  | registeredContainer id position => [("id", id), ("handle", s!"{position}")]
  | built styles components containers relations notes =>
    [("styles", s!"{styles}"), ("components", s!"{components}"), ("containers", s!"{containers}"),
      ("relations", s!"{relations}"), ("annotations", s!"{notes}")]
  | reading bytes => [("bytes", s!"{bytes}")]
  | started threshold => [("log_level", threshold.name)]
  | arguments input => [("input", input)]
  | processing input output check =>
    [("input_path", input), ("output_path", output.getD "None"),
      ("check", if check then "true" else "false")]
  | settingsExplicit path | settingsLocal path | settingsPlatform path
  | settingsPlatformAbsent path => [("path", path)]
  | inputValid path => [("input_path", path)]
  | modelWritten path => [("output_file", path)]
  | layoutRedeclared | parsed | referencesValid | obtained | validated | settingsPlatformUnknown
  | settingsDefault | completed => []

end Event

end ArchDiagram
