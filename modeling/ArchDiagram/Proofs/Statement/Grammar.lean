import Mathlib.Data.List.Basic
import ArchDiagram.Statement.Parser

/-! The grammar of documents: which tokens write a list of statements. It says nothing of how tokens
are read, but where two readings are open it says which one counts: attributes and relation labels
go on as far as they can, and `style` in a container is a property unless attributes follow. -/
namespace ArchDiagram

/-- What a statement says, wherever it stands. -/
inductive Phrase where
  | layout (attributes : List (String × String))
  | style (name : Id) (attributes : List (String × String))
  | component (id : Id) (properties : List (Field × String))
  | container (id : Id) (properties : List (Field × String)) (body : List Phrase)
  | relation (source target : Id) (label : Option String)
  | note (target : Id) (properties : List (Field × String))

def Attribute.pair (a : Attribute) : String × String :=
  (a.name.value, a.value.value)

def Property.pair (p : Property) : Field × String :=
  (p.field.value, p.value.value)

namespace Statement

mutual

/-- A statement without its places in the source. -/
def phrase : Statement → Phrase
  | .layout _ as => .layout (as.map Attribute.pair)
  | .style _ name as => .style name.value (as.map Attribute.pair)
  | .component _ id ps => .component id.value (ps.map Property.pair)
  | .container _ id ps body => .container id.value (ps.map Property.pair) (phrases body)
  | .relation _ source target label =>
    .relation source.value target.value (label.map Located.value)
  | .note _ target ps => .note target.value (ps.map Property.pair)

def phrases : List Statement → List Phrase
  | [] => []
  | s :: ss => s.phrase :: phrases ss

end

end Statement

namespace Grammar

/-- What can name an entity, a style or an attribute. -/
def IsName (t : Token) : Prop :=
  t.kind = .identifier ∨ t.kind = .property

/-- The values of an attribute or a property `name`; numeric ones may be malformed. -/
def IsValue (name : String) (t : Token) : Prop :=
  t.kind ∈ [.string, .identifier, .property, .number, .color] ∨
    t.kind = .unknown ∧ name ∈ ["ranksep", "nodesep", "width", "height"]

/-- `type` and `style` refer to a style by its name, and other properties have a value. -/
def IsFieldValue (f : Field) (t : Token) : Prop :=
  if f = .type ∨ f = .style then IsName t else IsValue f.name t

/-- The property that a token names. `style` is a keyword, all others are property names. -/
def Names (f : Field) (t : Token) : Prop :=
  t.kind = .property ∧ t.value = f.name ∨ t.kind = .keyword .style ∧ f = .style

/-- A token without a meaning in a block, which is skipped there. In a container every keyword has
a meaning. -/
structure IsStray (kind : BlockKind) (t : Token) : Prop where
  not_close : t.kind ≠ .rightBrace
  not_block : ∀ word ∈ [Keyword.component, .container, .note], t.kind ≠ .keyword word
  not_statement : kind = .container → ∀ word, t.kind ≠ .keyword word
  not_property : ∀ f ∈ kind.fields, ¬ Names f t

/-- `name =` comes first. -/
def AttributeAhead (ts : List Token) : Prop :=
  ∃ n e rest, ts = n :: e :: rest ∧ IsName n ∧ e.kind = .equals

def ColonAhead (ts : List Token) : Prop :=
  ∃ c rest, ts = c :: rest ∧ c.kind = .colon

/-- Whether the tokens `ts` are no longer part of a statement in front of them: an attribute would
be, and so would a colon after a relation without a label. -/
def EndsBefore (ts : List Token) : Phrase → Prop
  | .layout _ | .style _ _ => ¬ AttributeAhead ts
  | .relation _ _ none => ¬ ColonAhead ts
  | _ => True

/-- `name = value` any number of times. -/
inductive Attributes : List Token → List (String × String) → Prop
  | nil : Attributes [] []
  | cons {n e v : Token} {ts : List Token} {as : List (String × String)} (name : IsName n)
      (equals : e.kind = .equals) (value : IsValue n.value v) (rest : Attributes ts as) :
      Attributes (n :: e :: v :: ts) ((n.value, v.value) :: as)

mutual

/-- The tokens of a statement inside `depth` containers. -/
inductive Written : ℕ → List Token → Phrase → Prop
  | layout {depth k ts as} (keyword : k.kind = .keyword .layout) (attributes : Attributes ts as) :
      Written depth (k :: ts) (.layout as)
  | style {depth k n ts as} (keyword : k.kind = .keyword .style) (name : IsName n)
      (attributes : Attributes ts as) : Written depth (k :: n :: ts) (.style n.value as)
  | relation {depth k a r b} (keyword : k.kind = .keyword .relation) (source : IsName a)
      (arrow : r.kind = .arrow) (target : IsName b) :
      Written depth [k, a, r, b] (.relation a.value b.value none)
  | labelled {depth k a r b c l} (keyword : k.kind = .keyword .relation) (source : IsName a)
      (arrow : r.kind = .arrow) (target : IsName b) (colon : c.kind = .colon)
      (label : l.kind = .string) :
      Written depth [k, a, r, b, c, l] (.relation a.value b.value (some l.value))
  | component {depth k n o ts ps} (keyword : k.kind = .keyword .component) (name : IsName n)
      (opening : o.kind = .leftBrace) (content : Content .component depth ts ps []) :
      Written depth (k :: n :: o :: ts) (.component n.value ps)
  | note {depth k n o ts ps} (keyword : k.kind = .keyword .note) (name : IsName n)
      (opening : o.kind = .leftBrace) (content : Content .note depth ts ps []) :
      Written depth (k :: n :: o :: ts) (.note n.value ps)
  | container {depth k n o ts ps body} (keyword : k.kind = .keyword .container)
      (room : depth < maxNesting) (name : IsName n) (opening : o.kind = .leftBrace)
      (content : Content .container (depth + 1) ts ps body) :
      Written depth (k :: n :: o :: ts) (.container n.value ps body)

/-- The tokens of a block after its opening brace, with the properties and the statements in it. -/
inductive Content : BlockKind → ℕ → List Token → List (Field × String) → List Phrase → Prop
  | close {kind depth t} (closing : t.kind = .rightBrace) : Content kind depth [t] [] []
  | property {kind depth f t v ts ps body} (known : f ∈ kind.fields) (name : Names f t)
      (value : IsFieldValue f v)
      (not_nested : kind = .container → t.kind = .keyword .style → ¬ AttributeAhead ts)
      (rest : Content kind depth ts ps body) :
      Content kind depth (t :: v :: ts) ((f, v.value) :: ps) body
  | statement {depth used s ts ps body} (written : Written depth used s)
      (not_property : ∀ name, s ≠ .style name []) (ends : EndsBefore ts s)
      (rest : Content .container depth ts ps body) :
      Content .container depth (used ++ ts) ps (s :: body)
  | stray {kind depth t ts ps body} (stray : IsStray kind t) (rest : Content kind depth ts ps body) :
      Content kind depth (t :: ts) ps body

end

/-- A document is any number of statements. -/
inductive Document : List Token → List Phrase → Prop
  | nil : Document [] []
  | cons {used s ts ss} (written : Written 0 used s) (rest : Document ts ss) :
      Document (used ++ ts) (s :: ss)

end Grammar

end ArchDiagram
