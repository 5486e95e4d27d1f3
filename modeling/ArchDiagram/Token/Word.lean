import ArchDiagram.Number.Decimal
import ArchDiagram.Token.Basic

/-! The class of a bare word: keyword, property name, number, identifier or none of them. -/
namespace ArchDiagram

/-- An optional sign, then digits with at most one point, and a digit at the end. -/
def isNumeral (word : List Char) : Bool :=
  let body := (Decimal.sign word).2
  match body.dropWhile Decimal.isDigit with
  | [] => !body.isEmpty
  | c :: part => c == '.' && !part.isEmpty && part.all Decimal.isDigit

def startsIdentifier (c : Char) : Bool :=
  c.isAlpha || c == '_'

/-- The characters of identifiers, and of bare words in general. -/
def isWordChar (c : Char) : Bool :=
  c.isAlphanum || c == '_' || c == '.' || c == '-'

def isIdentifier : List Char → Bool
  | [] => false
  | c :: cs => startsIdentifier c && cs.all isWordChar

/-- Keywords come before property names, those before numbers, and identifiers last. -/
def TokenKind.classify (word : String) : TokenKind :=
  match Keyword.ofText? word with
  | some k => .keyword k
  | none =>
    if word ∈ propertyNames then .property
    else if isNumeral word.toList then .number
    else if isIdentifier word.toList then .identifier
    else .unknown

end ArchDiagram
