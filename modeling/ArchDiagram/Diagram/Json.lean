import ArchDiagram.Diagram.Basic
import ArchDiagram.Json

/-! Diagrams as JSON. Places in the source are left out. -/
namespace ArchDiagram

def OrderedMap.toJson {β : Type} (f : β → Json) (m : OrderedMap Id β) : Json :=
  .object (m.entries.map fun e => (e.1, f e.2))

def Layout.toJson (l : Layout) : Json :=
  .object [("direction", .string l.direction.name), ("ranksep", .number l.ranksep),
    ("nodesep", .number l.nodesep)]

def Style.toJson (s : Style) : Json :=
  .object [("name", .string s.name), ("icon", .ofOption s.icon), ("color", .string s.color),
    ("image", .ofOption s.image), ("shape", .string s.shape.name),
    ("properties", s.properties.toJson .string)]

def Size.toJson (s : Size) : Json :=
  .object [("width", .number s.width), ("height", .number s.height)]

def Component.toJson (c : Component) : Json :=
  .object [("id", .string c.id), ("label", .string c.label), ("style", .ofOption c.style),
    ("size", c.size.toJson), ("parent", .ofOption c.parent)]

def Container.toJson (c : Container) : Json :=
  .object [("id", .string c.id), ("label", .string c.label), ("style", .ofOption c.style),
    ("size", c.size.toJson), ("children", .array (c.children.map .string)),
    ("parent", .ofOption c.parent)]

def Relation.toJson (r : Relation) : Json :=
  .object [("from", .string r.source), ("to", .string r.target), ("label", .ofOption r.label)]

def Note.toJson (a : Note) : Json :=
  .object [("target", .string a.target), ("tooltip", .ofOption a.tooltip),
    ("link", .ofOption a.link)]

def Diagram.toJson (d : Diagram) : Json :=
  .object [("layout", d.layout.toJson), ("styles", d.styles.toJson Style.toJson),
    ("components", d.components.toJson Component.toJson),
    ("containers", d.containers.toJson Container.toJson),
    ("relations", .array (d.relations.map Relation.toJson)),
    ("annotations", d.notes.toJson Note.toJson)]

end ArchDiagram
