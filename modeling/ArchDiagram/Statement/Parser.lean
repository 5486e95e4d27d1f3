import ArchDiagram.Log.Logged
import ArchDiagram.Statement.Basic
import ArchDiagram.Statement.Fault

/-! Statements from tokens, by recursive descent. Parsing stops at the first fault, and `statement`
recurses on the number of containers that may still be opened. What a statement says is read behind
its keyword, which stands at `start`. -/
namespace ArchDiagram

/-- A parser has read a value off the front of the tokens, or it stopped on the way. -/
inductive Outcome (α : Type) where
  | done (value : α) (rest : List Token)
  | stop (cause : Cause) (rest : List Token)

/-- A parser reports the tokens that it skips. -/
def Parser (α : Type) := List Token → Logged (Outcome α)

namespace Parser

variable {α β : Type}

def pure (a : α) : Parser α := fun ts =>
  ⟨[], .done a ts⟩

def bind (p : Parser α) (f : α → Parser β) : Parser β := fun ts =>
  let first := p ts
  match first.value with
  | .done a rest =>
    let second := f a rest
    ⟨first.events ++ second.events, second.value⟩
  | .stop cause rest => ⟨first.events, .stop cause rest⟩

instance : Monad Parser where
  pure := pure
  bind := bind

/-- Stops in front of the next token. -/
def fail (cause : Cause) : Parser α := fun ts =>
  ⟨[], .stop cause ts⟩

/-- Takes the next token if `accept` makes something of it. -/
def next (what : Expectation) (accept : Token → Option α) : Parser α
  | [] => ⟨[], .stop (.expected what) []⟩
  | t :: ts =>
    match accept t with
    | some a => ⟨[], .done a ts⟩
    | none => ⟨[], .stop (.expected what) (t :: ts)⟩

def punctuation (kind : TokenKind) (what : Expectation) : Parser Span :=
  next what fun t => if t.kind = kind then some t.span else none

end Parser

namespace Token

def located (t : Token) : Located String :=
  ⟨t.value, t.span⟩

/-- Whether the token can be the value of `name`. Numeric names also take unknown tokens, so that
a malformed number is no fault. -/
def isValueOf (name : String) (t : Token) : Bool :=
  match t.kind with
  | .string | .identifier | .property | .number | .color => true
  | .unknown => name ∈ ["ranksep", "nodesep", "width", "height"]
  | _ => false

end Token

namespace Field

/-- What is read after the name of a property. -/
def expectation : Field → Expectation
  | type | style => .identifier
  | label => .labelValue
  | tooltip => .tooltipValue
  | link => .linkValue
  | width | height => .propertyValue

def accepts (f : Field) (t : Token) : Bool :=
  match f with
  | type | style => t.isName
  | label | tooltip | link | width | height => t.isValueOf f.name

end Field

inductive BlockKind where
  | component
  | container
  | note
deriving DecidableEq, Repr

/-- The part that a token plays where an item of a block begins. -/
inductive ItemRole where
  | close
  | statement
  | refused
  | property (field : Field)
  | skipped
deriving DecidableEq, Repr

namespace BlockKind

def fields : BlockKind → List Field
  | component | container => [.label, .type, .style, .width, .height]
  | note => [.tooltip, .link]

def field? (kind : BlockKind) (name : String) : Option Field :=
  kind.fields.find? fun f => f.name == name

end BlockKind

/-- Whether `<name> <name> =` comes first: after `style`, these open a nested statement. -/
def styleAhead : List Token → Bool
  | t :: u :: v :: _ => t.isName && u.isName && v.kind = .equals
  | _ => false

/-- A nested statement is read only in a container, where `style` opens one if an attribute
follows its name. Elsewhere a keyword with a block of its own is refused, for its closing brace
would end the block around it. -/
def BlockKind.role (kind : BlockKind) (t : Token) (ts : List Token) : ItemRole :=
  match t.kind with
  | .rightBrace => .close
  | .keyword word =>
    if kind = .container && (word != .style || styleAhead ts) then .statement
    else if word.opensBlock then .refused
    else (kind.field? word.text).elim .skipped .property
  | .property => (kind.field? t.value).elim .skipped .property
  | _ => .skipped

/-- The inside of a block, and the place of its closing brace. -/
structure Block where
  properties : List Property
  body : List Statement
  close : Span

namespace Block

def addProperty (p : Property) (b : Block) : Block :=
  { b with properties := p :: b.properties }

def addStatement (s : Statement) (b : Block) : Block :=
  { b with body := s :: b.body }

end Block

namespace Outcome

variable {α β : Type}

def map (f : α → β) : Outcome α → Outcome β
  | done a rest => done (f a) rest
  | stop cause rest => stop cause rest

end Outcome

namespace Parser

/-- The items of a block up to its closing brace; `nested` reads the statements among them. -/
def items (kind : BlockKind) (nested : Parser Statement) : Parser Block
  | [] => ⟨[], .stop (.expected .closingBrace) []⟩
  | t :: ts =>
    match kind.role t ts with
    | .close => ⟨[], .done ⟨[], [], t.span⟩ ts⟩
    | .refused => ⟨[], .stop (.expected .propertyOrClosingBrace) (t :: ts)⟩
    | .skipped =>
      let more := items kind nested ts
      ⟨.skippedToken t.value t.line :: more.events, more.value⟩
    | .property field =>
      match ts with
      | [] => ⟨[], .stop (.expected field.expectation) []⟩
      | v :: rest =>
        if field.accepts v then
          let more := items kind nested rest
          ⟨more.events, more.value.map (Block.addProperty ⟨⟨field, t.span⟩, v.located⟩)⟩
        else ⟨[], .stop (.expected field.expectation) (v :: rest)⟩
    | .statement =>
      let one := nested (t :: ts)
      match one.value with
      | .stop cause rest => ⟨one.events, .stop cause rest⟩
      | .done s rest =>
        if rest.length ≤ ts.length then
          let more := items kind nested rest
          ⟨one.events ++ more.events, more.value.map (Block.addStatement s)⟩
        else ⟨one.events, .stop (.expected .closingBrace) rest⟩
termination_by ts => ts.length
decreasing_by
  all_goals simp only [List.length_cons]; omega

def block (kind : BlockKind) (nested : Parser Statement) : Parser Block := do
  let _ ← punctuation .leftBrace .leftBrace
  items kind nested

def identifier : Parser (Located Id) :=
  next .identifier fun t => if t.isName then some t.located else none

/-- Attributes, up to the first token that is not a name before `=`. -/
def attributes : Parser (List Attribute)
  | n :: e :: v :: ts =>
    if n.isName && e.kind = .equals then
      if v.isValueOf n.value then
        let more := attributes ts
        ⟨more.events, more.value.map (⟨n.located, v.located⟩ :: ·)⟩
      else ⟨[], .stop (.expected .attributeValue) (v :: ts)⟩
    else ⟨[], .done [] (n :: e :: v :: ts)⟩
  | [n, e] =>
    if n.isName && e.kind = .equals then ⟨[], .stop (.expected .attributeValue) []⟩
    else ⟨[], .done [] [n, e]⟩
  | ts => ⟨[], .done [] ts⟩

/-- The place of the last attribute value, or else `start`. -/
def lastValue (start : Span) (as : List Attribute) : Span :=
  as.getLast?.elim start fun a => a.value.span

/-- The quoted text after a colon, if there is a colon. -/
def relationLabel : Parser (Option (Located String))
  | [] => ⟨[], .done none []⟩
  | t :: ts =>
    if t.kind = .colon then
      next .relationLabel (fun v => if v.kind = .string then some (some v.located) else none) ts
    else ⟨[], .done none (t :: ts)⟩

def layout (start : Span) : Parser Statement := do
  let as ← attributes
  return .layout (start.union (lastValue start as)) as

def style (start : Span) : Parser Statement := do
  let name ← identifier
  let as ← attributes
  return .style (start.union (lastValue name.span as)) name as

def relation (start : Span) : Parser Statement := do
  let source ← identifier
  let _ ← punctuation .arrow .arrow
  let target ← identifier
  let label ← relationLabel
  return .relation (start.union (label.elim target.span Located.span)) source target label

def component (start : Span) : Parser Statement := do
  let id ← identifier
  let b ← block .component (fail .unknownStatement)
  return .component (start.union b.close) id b.properties

def note (start : Span) : Parser Statement := do
  let target ← identifier
  let b ← block .note (fail .unknownStatement)
  return .note (start.union b.close) target b.properties

def container (nested : Parser Statement) (start : Span) : Parser Statement := do
  let id ← identifier
  let b ← block .container nested
  return .container (start.union b.close) id b.properties b.body

/-- Reads one statement; `inner` says how the statements inside a container are read, and is
absent where no further container may be opened. -/
def dispatch (inner : Option (Parser Statement)) : Parser Statement
  | [] => ⟨[], .stop .unknownStatement []⟩
  | t :: ts =>
    match t.kind with
    | .keyword .layout => layout t.span ts
    | .keyword .style => style t.span ts
    | .keyword .component => component t.span ts
    | .keyword .container =>
      match inner with
      | some nested => container nested t.span ts
      | none => ⟨[], .stop .tooDeep (t :: ts)⟩
    | .keyword .relation => relation t.span ts
    | .keyword .note => note t.span ts
    | _ => ⟨[], .stop .unknownStatement (t :: ts)⟩

/-- One statement, where `room` further containers may be opened. -/
def statement : (room : Nat) → Parser Statement
  | 0 => dispatch none
  | room + 1 => dispatch (some (statement room))

/-- Statements up to the end of the tokens. -/
def sequence (one : Parser Statement) : Parser (List Statement)
  | [] => ⟨[], .done [] []⟩
  | t :: ts =>
    let first := one (t :: ts)
    match first.value with
    | .stop cause rest => ⟨first.events, .stop cause rest⟩
    | .done s rest =>
      if rest.length ≤ ts.length then
        let more := sequence one rest
        ⟨first.events ++ more.events, more.value.map (s :: ·)⟩
      else ⟨first.events, .stop .unknownStatement rest⟩
termination_by ts => ts.length
decreasing_by
  simp only [List.length_cons]; omega

end Parser

/-- The statements of a document. -/
def parseStatements (tokens : List Token) : Attempt SyntaxFault (List Statement) :=
  let answer := Parser.sequence (Parser.statement maxNesting) tokens
  match answer.value with
  | .done statements _ =>
    .of (answer.events ++ [.parsedStatements statements.length]) (.ok statements)
  | .stop cause rest => .of answer.events (.error (.locate tokens cause rest))

end ArchDiagram
