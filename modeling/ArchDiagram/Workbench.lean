import ArchDiagram.Diagram.Json
import ArchDiagram.Diagram.Source
import ArchDiagram.Problem
import ArchDiagram.Settings.Basic

/-! Work on diagrams under given settings. -/
namespace ArchDiagram

structure Workbench where
  settings : Settings := {}

namespace Workbench

/-- The diagram of a source whose references may dangle. -/
def parseUnchecked (_ : Workbench) (source : String) : Attempt Problem Diagram := do
  Logged.report (.reading source.utf8ByteSize)
  let d ← (Diagram.parse source).mapError fun failure => .parse failure source
  Logged.report .parsed
  Logged.report .obtained
  return d

/-- The diagram of a source in which every reference that is checked leads somewhere. -/
def parse (w : Workbench) (source : String) : Attempt Problem Diagram := do
  let d ← w.parseUnchecked source
  d.validate.mapError fun failure => .validation failure source
  Logged.report .validated
  return d

/-- The style of an entity that refers to `name`. Where no such style is declared it is made from
the settings. -/
def resolveStyle (w : Workbench) (d : Diagram) (name : Option Id) : Logged Style :=
  match name.bind d.styles.get? with
  | some style => return style
  | none => do
    let name := name.getD "default"
    Logged.report (.defaultStyle name)
    return { Style.new name with color := w.settings.color, shape := w.settings.shape }

def toJson (w : Workbench) (d : Diagram) : String :=
  d.toJson.text (if w.settings.pretty then .indented else .compact)

end Workbench

end ArchDiagram
