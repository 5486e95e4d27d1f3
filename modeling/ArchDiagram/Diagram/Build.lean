import ArchDiagram.Diagram.Draft

/-! Diagrams from statements. Containers are registered before their bodies, so that nested
declarations can attach to them. -/
namespace ArchDiagram

namespace Draft

mutual

/-- Adds a statement that stands inside the containers `opened`, innermost first. Only components
and containers nest. -/
def place (opened : List Id) (d : Draft) (s : Statement) : Attempt NestingFault Draft :=
  match s with
  | .component span id ps => d.addComponent opened id.value ps span
  | .container span id ps body => do
    let d ← d.addContainer opened id ps span
    placeAll (id.value :: opened) d body
  | .layout span as => d.atTop opened .layout span (d.addLayout as)
  | .style span name as => d.atTop opened .style span (d.addStyle name.value as)
  | .relation span source target label =>
    d.atTop opened .relation span
      (pure (d.addRelation ⟨source.value, target.value, label.map Located.value, span⟩))
  | .note span target ps =>
    d.atTop opened .note span (d.addNote target.value ps span)

def placeAll (opened : List Id) (d : Draft) (ss : List Statement) : Attempt NestingFault Draft :=
  match ss with
  | [] => return d
  | s :: rest => do
    let d ← place opened d s
    placeAll opened d rest

end

end Draft

/-- The diagram that a document declares. -/
def buildDiagram (statements : List Statement) : Attempt NestingFault Diagram := do
  Logged.report (.building statements.length)
  let d ← Draft.placeAll [] .empty statements
  Logged.report (.built d.styles.size d.components.size d.containers.size d.relations.length
    d.notes.size)
  return d.toDiagram

end ArchDiagram
