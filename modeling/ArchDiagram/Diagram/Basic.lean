import ArchDiagram.Diagram.Entity

/-! Diagrams: a layout, styles, entities, and the relations and annotations between them. -/
namespace ArchDiagram

/-- The direction in which the ranks of a diagram follow each other. -/
inductive Direction where
  | leftToRight
  | rightToLeft
  | topToBottom
  | bottomToTop
deriving DecidableEq, Repr

namespace Direction

def name : Direction → String
  | leftToRight => "LR"
  | rightToLeft => "RL"
  | topToBottom => "TB"
  | bottomToTop => "BT"

/-- Reads a name in any ASCII case. -/
def ofName? (s : String) : Option Direction :=
  [leftToRight, rightToLeft, topToBottom, bottomToTop].find? fun d =>
    d.name.toList == s.toList.map Char.toUpper

/-- What is said of a text that names no direction. -/
def unsupported : String :=
  "Unsupported direction"

@[simp] theorem ofName?_name (d : Direction) : ofName? d.name = some d := by
  cases d <;> decide

end Direction

structure Layout where
  direction : Direction
  /-- The distance between ranks. -/
  ranksep : Binary64
  /-- The distance between nodes of one rank. -/
  nodesep : Binary64
deriving DecidableEq

namespace Layout

def defaultRanksep : Binary64 :=
  .ofNat 50

def defaultNodesep : Binary64 :=
  .ofNat 30

def default : Layout :=
  ⟨.topToBottom, defaultRanksep, defaultNodesep⟩

def equals (a b : Layout) : Bool :=
  a.direction == b.direction && a.ranksep.equals b.ranksep && a.nodesep.equals b.nodesep

end Layout

/-- A directed edge between two entities. -/
structure Relation where
  source : Id
  target : Id
  label : Option String
  span : Span
deriving DecidableEq

/-- The relation as its statement writes it, without the keyword. -/
def Relation.describe (r : Relation) : String :=
  match r.label with
  | none => s!"{r.source} -> {r.target}"
  | some label => s!"{r.source} -> {r.target} : \"{label}\""

/-- An annotation: a tooltip and a link for one entity. -/
structure Note where
  target : Id
  tooltip : Option String
  link : Option String
  span : Span
deriving DecidableEq

def Note.new (target : Id) (span : Span) : Note :=
  ⟨target, none, none, span⟩

/-- The maps are keyed by id, and a component and a container may share one. -/
structure Diagram where
  layout : Layout
  styles : OrderedMap Id Style
  components : OrderedMap Id Component
  containers : OrderedMap Id Container
  relations : List Relation
  notes : OrderedMap Id Note
deriving DecidableEq

namespace Diagram

def empty : Diagram :=
  ⟨.default, ∅, ∅, ∅, [], ∅⟩

/-- Whether a component or a container has this id. -/
def hasEntity (d : Diagram) (id : Id) : Bool :=
  d.components.contains id || d.containers.contains id

/-- The children of a container; none if there is no such container. -/
def childrenOf (d : Diagram) (id : Id) : List Id :=
  (d.containers.get? id).elim [] Container.children

def topComponents (d : Diagram) : List Component :=
  d.components.values.filter fun c => c.parent.isNone

def topContainers (d : Diagram) : List Container :=
  d.containers.values.filter fun c => c.parent.isNone

/-- The ids of the entities at top level, in the order of their declarations. -/
def roots (d : Diagram) : List Id :=
  let tops := d.topComponents.map Component.toEntity ++ d.topContainers.map Container.toEntity
  (tops.mergeSort fun a b => a.span.start ≤ b.span.start).map Entity.id

/-- Equality up to the order of the maps, with numbers compared as numbers. -/
def agrees (a b : Diagram) : Bool :=
  a.layout.equals b.layout && a.styles.agrees Style.agrees b.styles &&
    a.components.agrees Component.agrees b.components &&
    a.containers.agrees Container.agrees b.containers &&
    a.relations == b.relations && a.notes.agrees (· == ·) b.notes

end Diagram

end ArchDiagram
