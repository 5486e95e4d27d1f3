import ArchDiagram.Number.Binary64
import ArchDiagram.Span
import ArchDiagram.Diagram.Style

/-! Components, and the containers that group them. -/
namespace ArchDiagram

structure Size where
  width : Binary64
  height : Binary64
deriving DecidableEq

namespace Size

/-- The size of a component that gives none. -/
def component : Size :=
  ⟨.ofNat 100, .ofNat 60⟩

/-- The size of a container that gives none. -/
def container : Size :=
  ⟨.ofNat 300, .ofNat 200⟩

def equals (s t : Size) : Bool :=
  s.width.equals t.width && s.height.equals t.height

end Size

/-- What components and containers have in common. -/
structure Entity where
  id : Id
  label : String
  style : Option Id
  size : Size
  /-- The container around the entity. -/
  parent : Option Id
  /-- The place of the declaration. -/
  span : Span
deriving DecidableEq

def Entity.agrees (a b : Entity) : Bool :=
  a.id == b.id && a.label == b.label && a.style == b.style && a.size.equals b.size &&
    a.parent == b.parent && a.span == b.span

structure Component extends Entity
deriving DecidableEq

structure Container extends Entity where
  /-- The nested components and containers, in the order in which they were attached. -/
  children : List Id
deriving DecidableEq

namespace Component

/-- A component labelled with its own id. -/
def new (id : Id) (span : Span) : Component :=
  ⟨⟨id, id, none, .component, none, span⟩⟩

def agrees (a b : Component) : Bool :=
  a.toEntity.agrees b.toEntity

end Component

namespace Container

/-- A container without children, labelled with its own id. -/
def new (id : Id) (span : Span) : Container :=
  ⟨⟨id, id, none, .container, none, span⟩, []⟩

def push (c : Container) (child : Id) : Container :=
  { c with children := c.children ++ [child] }

/-- Takes every occurrence of a child away. -/
def remove (c : Container) (child : Id) : Container :=
  { c with children := c.children.filter (· != child) }

@[simp] theorem children_push (c : Container) (child : Id) :
    (c.push child).children = c.children ++ [child] := rfl

@[simp] theorem children_remove (c : Container) (child : Id) :
    (c.remove child).children = c.children.filter (· != child) := rfl

@[simp] theorem toEntity_push (c : Container) (child : Id) :
    (c.push child).toEntity = c.toEntity := rfl

@[simp] theorem toEntity_remove (c : Container) (child : Id) :
    (c.remove child).toEntity = c.toEntity := rfl

def agrees (a b : Container) : Bool :=
  a.toEntity.agrees b.toEntity && a.children == b.children

end Container

end ArchDiagram
