import ArchDiagram.Diagnostic
import ArchDiagram.Token.Basic

/-! Where and why a list of tokens is not a list of statements. -/
namespace ArchDiagram

/-- The number of containers that may be open at once. -/
def maxNesting : Nat := 64

/-- What could have stood where the tokens went wrong. -/
inductive Expectation where
  | identifier
  | leftBrace
  | closingBrace
  | propertyOrClosingBrace
  | arrow
  | relationLabel
  | attributeValue
  | labelValue
  | tooltipValue
  | linkValue
  | propertyValue
deriving DecidableEq, Repr

def Expectation.text : Expectation → String
  | identifier => "identifier"
  | leftBrace => "`\x7b`"
  | closingBrace => "`\x7d` closing the block"
  | propertyOrClosingBrace => "property or `\x7d` closing the block"
  | arrow => "`->`"
  | relationLabel => "quoted relation label"
  | attributeValue => "attribute value"
  | labelValue => "label value"
  | tooltipValue => "tooltip value"
  | linkValue => "link value"
  | propertyValue => "property value"

/-- Why parsing stopped. -/
inductive Cause where
  | expected (what : Expectation)
  | unknownStatement
  | tooDeep
deriving DecidableEq, Repr

/-- Why and where parsing stopped; at the end of the input, after which token. -/
inductive SyntaxFault where
  | unexpected (what : Expectation) (found : Token)
  | unknownStatement (found : Token)
  | tooDeep (found : Token)
  | endOfInput (cause : Cause) (last : Span)
deriving DecidableEq, Repr

namespace SyntaxFault

/-- The fault of stopping in front of `rest`, the last of `tokens`. -/
def locate (tokens : List Token) (cause : Cause) (rest : List Token) : SyntaxFault :=
  match rest with
  | [] => .endOfInput cause (tokens.getLast?.elim {} Token.span)
  | t :: _ =>
    match cause with
    | .expected what => .unexpected what t
    | .unknownStatement => .unknownStatement t
    | .tooDeep => .tooDeep t

def diagnostic : SyntaxFault → Diagnostic
  | unexpected what t =>
    Diagnostic.error s!"expected {what.text}, found {t.describe}"
      |>.withCode .unexpectedToken
      |>.withLabel t.span s!"expected {what.text}"
      |>.withHelp "check syntax and token positioning"
  | unknownStatement t =>
    let keywords := ", ".intercalate (Keyword.all.map Keyword.text)
    Diagnostic.error s!"unknown statement: found {t.describe}; expected one of {keywords}"
      |>.withCode .unknownStatement
      |>.withLabel t.span "not a statement keyword"
      |>.withHelp ("statements start with `layout`, `style`, `component`, `container`, " ++
        "`relation` or `annotation`")
  | tooDeep t =>
    Diagnostic.error
        s!"containers nested more than {maxNesting} deep at line {t.line}, column {t.column}"
      |>.withCode .nestedTooDeeply
      |>.withLabel t.span "nested too deeply"
      |>.withHelp "flatten the hierarchy or move part of it into its own top-level container"
  | endOfInput cause last =>
    let what := match cause with
      | .expected what => what.text
      | .unknownStatement | .tooDeep => "a statement"
    Diagnostic.error s!"unexpected end of input (EOF): expected {what}"
      |>.withCode .unexpectedEnd
      |>.withLabel last "input ends after this token"
      |>.withHelp "the statement is incomplete; check for a missing `\x7d` or value"

end SyntaxFault

end ArchDiagram
