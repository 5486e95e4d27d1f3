import ArchDiagram.Diagnostic
import ArchDiagram.Diagram.Basic
import ArchDiagram.Log.Logged
import ArchDiagram.Number.Decimal
import ArchDiagram.Statement.Basic

/-! Diagrams under construction: each statement changes the draft, and the last declaration of an
id wins. Malformed values fall back with a warning; the only fault is a container inside itself. The
ids of the open containers are listed innermost first. -/
namespace ArchDiagram

/-- Why a statement has no place in a draft. -/
inductive NestingFault where
  | selfNested (id : Located Id) (enclosing : Span)
  /-- An open container that the draft does not hold; its handle is its position among those that
are held. No document leads to this. -/
  | unregistered (handle : Nat) (span : Span)
deriving DecidableEq

def NestingFault.diagnostic : NestingFault → Diagnostic
  | selfNested id enclosing =>
    Diagnostic.error s!"container '{id.value}' is nested inside itself"
      |>.withCode .selfNested
      |>.withLabel id.span "nested declaration"
      |>.withSecondary enclosing "enclosing container declared here"
      |>.withHelp "a container cannot be its own ancestor; rename one of them"
  | unregistered handle span =>
    Diagnostic.error s!"enclosing container handle {handle} does not resolve"
      |>.withCode .unresolvedContainer
      |>.withLabel span "declared inside an unregistered container"
      |>.withHelp "this is a bug in the parser, please report it"

/-- The number that a text names, or else `fallback`. -/
def readNumber (name text : String) (fallback : Binary64) : Logged Binary64 :=
  match Binary64.read? text with
  | some x => pure x
  | none => do
    Logged.report (.invalidNumber name text fallback)
    return fallback

/-- The positive number that a text names, or else `fallback`. -/
def readDimension (name text : String) (fallback : Binary64) : Logged Binary64 := do
  let x ← readNumber name text fallback
  if x.isPositive then return x
  else
    Logged.report (.sizeNotPositive name x fallback)
    return fallback

/-- What the properties of an entity say about it. -/
structure Traits where
  label : Option String
  style : Option Id
  size : Size

namespace Traits

/-- `type` and `style` mean the same. A bad width or height leaves the one before it. -/
def read (t : Traits) (p : Property) : Logged Traits :=
  let text := p.value.value
  match p.field.value with
  | .label => return { t with label := some text }
  | .type | .style => return { t with style := some text }
  | .width => do
    let width ← readDimension "width" text t.size.width
    return { t with size := { t.size with width } }
  | .height => do
    let height ← readDimension "height" text t.size.height
    return { t with size := { t.size with height } }
  | .tooltip | .link => return t

def ofProperties (size : Size) (ps : List Property) : Logged Traits :=
  ps.foldlM read ⟨none, none, size⟩

/-- The entity with these traits; its label is its id unless another is given. -/
def toEntity (t : Traits) (id : Id) (parent : Option Id) (span : Span) : Entity :=
  ⟨id, t.label.getD id, t.style, t.size, parent, span⟩

end Traits

def Layout.set (l : Layout) (a : Attribute) : Logged Layout :=
  let text := a.value.value
  let name := a.name.value
  if name = "direction" then
    match Direction.ofName? text with
    | some direction => return { l with direction }
    | none => do
      Logged.report (.unknownDirection text)
      return { l with direction := .topToBottom }
  else if name = "ranksep" then do
    let ranksep ← readNumber name text Layout.defaultRanksep
    return { l with ranksep }
  else if name = "nodesep" then do
    let nodesep ← readNumber name text Layout.defaultNodesep
    return { l with nodesep }
  else do
    Logged.report (.unknownLayoutAttribute name)
    return l

def Style.set (s : Style) (a : Attribute) : Logged Style :=
  let text := a.value.value
  let name := a.name.value
  if name = "icon" then return { s with icon := some text }
  else if name = "color" then return { s with color := text }
  else if name = "image" then return { s with image := some text }
  else if name = "shape" then
    match Shape.ofName? text with
    | some shape => return { s with shape }
    | none => do
      Logged.report (.unknownShape s.name text)
      return { s with shape := .rectangle }
  else return { s with properties := s.properties.insert name text }

def Note.set (a : Note) (p : Property) : Note :=
  match p.field.value with
  | .tooltip => { a with tooltip := some p.value.value }
  | .link => { a with link := some p.value.value }
  | .label | .type | .style | .width | .height => a

/-- The declarations so far. -/
structure Draft where
  layout : Option Layout
  styles : OrderedMap Id Style
  components : OrderedMap Id Component
  containers : OrderedMap Id Container
  relations : List Relation
  notes : OrderedMap Id Note

namespace Draft

def empty : Draft :=
  ⟨none, ∅, ∅, ∅, [], ∅⟩

def toDiagram (d : Draft) : Diagram :=
  ⟨d.layout.getD .default, d.styles, d.components, d.containers, d.relations, d.notes⟩

def addLayout (d : Draft) (as : List Attribute) : Logged Draft := do
  Logged.reportIf d.layout.isSome .layoutRedeclared
  let layout ← as.foldlM Layout.set .default
  return { d with layout := some layout }

def addStyle (d : Draft) (name : Id) (as : List Attribute) : Logged Draft := do
  let style ← as.foldlM Style.set (.new name)
  Logged.reportIf (d.styles.contains name) (.styleRedeclared name)
  return { d with styles := d.styles.insert name style }

def addRelation (d : Draft) (r : Relation) : Draft :=
  { d with relations := d.relations ++ [r] }

def addNote (d : Draft) (target : Id) (ps : List Property) (span : Span) :
    Logged Draft := do
  let note := ps.foldl Note.set (.new target span)
  Logged.reportIf (d.notes.contains target) (.noteRedeclared target)
  return { d with notes := d.notes.insert target note }

/-- Keeps a statement that is no entity out of containers. -/
def atTop (d : Draft) (opened : List Id) (keyword : Keyword) (span : Span) (added : Logged Draft) :
    Attempt NestingFault Draft :=
  if opened.isEmpty then added
  else do
    Logged.report (.ignoredStatement keyword span.start)
    return d

/-- Takes an entity out of the container around its earlier declaration. -/
def detach (d : Draft) (id : Id) (parent : Option Id) : Logged Draft :=
  match parent with
  | none => return d
  | some p => do
    Logged.reportIf ((d.containers.get? p).any fun c => c.children.contains id) (.detached id p)
    return { d with containers := d.containers.modify p (·.remove id) }

/-- Lists an entity among the children of the innermost open container, and names that one. -/
def attach (d : Draft) (opened : List Id) (id : Id) (span : Span) :
    Except NestingFault (Draft × Option Id) :=
  match opened with
  | [] => .ok (d, none)
  | parent :: _ =>
    match d.containers.get? parent with
    | some c => .ok ({ d with containers := d.containers.modify parent (·.push id) }, some c.id)
    | none => .error (.unregistered (d.containers.position parent) span)

def addComponent (d : Draft) (opened : List Id) (id : Id) (ps : List Property) (span : Span) :
    Attempt NestingFault Draft := do
  let traits ← Traits.ofProperties .component ps
  let d ← d.detach id ((d.components.get? id).bind fun c => c.parent)
  let (d, parent) ← liftExcept (d.attach opened id span)
  Logged.report (.registeredComponent id parent)
  Logged.reportIf (d.components.contains id) (.componentRedeclared id)
  return { d with components := d.components.insert id ⟨traits.toEntity id parent span⟩ }

/-- The open container that already has this id. -/
def enclosing? (d : Draft) (opened : List Id) (id : Id) : Option Container :=
  if id ∈ opened then d.containers.get? id else none

/-- A redeclared container keeps its children. -/
def addContainer (d : Draft) (opened : List Id) (id : Located Id) (ps : List Property)
    (span : Span) : Attempt NestingFault Draft := do
  match d.enclosing? opened id.value with
  | some outer => throw (.selfNested id outer.span)
  | none =>
    let traits ← Traits.ofProperties .container ps
    let previous := d.containers.get? id.value
    let d ← d.detach id.value (previous.bind fun c => c.parent)
    let (d, parent) ← liftExcept (d.attach opened id.value span)
    let container := ⟨traits.toEntity id.value parent span, previous.elim [] Container.children⟩
    let d := { d with containers := d.containers.insert id.value container }
    Logged.reportIf previous.isSome (.containerRedeclared id.value)
    Logged.report (.registeredContainer id.value (d.containers.position id.value))
    return d

end Draft

end ArchDiagram
