import ArchDiagram.Diagnostic
import ArchDiagram.Diagram.Basic
import ArchDiagram.Log.Logged

/-! Dangling references of a diagram. The style of a container may dangle. -/
namespace ArchDiagram

/-- A name that nothing declares, in what uses it. -/
inductive Dangling where
  | source (relation : Relation)
  | target (relation : Relation)
  | annotated (note : Note)
  | style (name : Id) (component : Component)
deriving DecidableEq

def Dangling.diagnostic : Dangling → Diagnostic
  | source r =>
    Diagnostic.error s!"Relation source '{r.source}' not found"
      |>.withCode .undefinedSource
      |>.withLabel r.span "undefined source"
      |>.withHelp s!"declare `{r.source}` as a component or container"
  | target r =>
    Diagnostic.error s!"Relation target '{r.target}' not found"
      |>.withCode .undefinedTarget
      |>.withLabel r.span "undefined target"
      |>.withHelp s!"declare `{r.target}` as a component or container"
  | annotated a =>
    Diagnostic.error s!"Annotation target '{a.target}' not found"
      |>.withCode .undefinedAnnotated
      |>.withLabel a.span "undefined target"
  | style name c =>
    Diagnostic.error s!"Style '{name}' not found for component '{c.id}'"
      |>.withCode .undefinedStyle
      |>.withLabel c.span "undefined style"
      |>.withHelp s!"declare it with `style {name} ...`"

namespace Diagram

def danglingEnds (d : Diagram) (r : Relation) : List Dangling :=
  (if d.hasEntity r.source then [] else [.source r]) ++
    (if d.hasEntity r.target then [] else [.target r])

def danglingTarget (d : Diagram) (a : Note) : List Dangling :=
  if d.hasEntity a.target then [] else [.annotated a]

def danglingStyle (d : Diagram) (c : Component) : List Dangling :=
  match c.style with
  | none => []
  | some name => if d.styles.contains name then [] else [.style name c]

/-- Every dangling reference: those of relations, then of annotations, then of components. -/
def dangling (d : Diagram) : List Dangling :=
  d.relations.flatMap d.danglingEnds ++ d.notes.values.flatMap d.danglingTarget ++
    d.components.values.flatMap d.danglingStyle

/-- Fails with one diagnostic for each dangling reference. -/
def validate (d : Diagram) : Attempt Failure Unit :=
  if d.dangling.isEmpty then Logged.report .referencesValid
  else throw ⟨d.dangling.map Dangling.diagnostic⟩

end Diagram

end ArchDiagram
