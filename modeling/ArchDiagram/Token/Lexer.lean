import ArchDiagram.Text.Basic
import ArchDiagram.Token.Word

/-! Lexing, line by line. Every text has tokens: what fits no rule is an `unknown` one. Each rule
looks at a character and what follows it, and gives a kind and how many of the following characters
belong to the lexeme. -/
namespace ArchDiagram
open Text

namespace Lexeme

/-- The characters that a bare word takes off the front; a dash before `>` starts an arrow. -/
def wordLength : List Char → Nat
  | [] => 0
  | c :: cs =>
    if c == '-' && cs.head? == some '>' then 0
    else if isWordChar c then wordLength cs + 1
    else 0

def isHexDigit (c : Char) : Bool :=
  c.isDigit || ('a' ≤ c && c ≤ 'f') || ('A' ≤ c && c ≤ 'F')

/-- A character that goes on with a run of unknown text. -/
def isPlain (c : Char) : Bool :=
  !isBlank c && !(c == '{' || c == '}' || c == ':' || c == '=' || c == '"')

def arrow? (c : Char) (cs : List Char) : Option (TokenKind × Nat) :=
  if c == '-' && cs.head? == some '>' then some (.arrow, 1) else none

/-- Quoted text knows no escapes and ends on its line. -/
def quoted? (c : Char) (cs : List Char) : Option (TokenKind × Nat) :=
  if c == '"' && cs.contains '"' then some (.string, (cs.takeWhile (· != '"')).length + 1) else none

def punctuation? (c : Char) : Option (TokenKind × Nat) :=
  if c == '{' then some (.leftBrace, 0)
  else if c == '}' then some (.rightBrace, 0)
  else if c == ':' then some (.colon, 0)
  else if c == '=' then some (.equals, 0)
  else none

/-- A hash and six hexadecimal digits that no word character follows. -/
def color? (c : Char) (cs : List Char) : Option (TokenKind × Nat) :=
  if c == '#' && 6 ≤ cs.length && (cs.take 6).all isHexDigit && !(cs.drop 6).head?.any isWordChar
  then some (.color, 6) else none

def word? (c : Char) (cs : List Char) : Option (TokenKind × Nat) :=
  match wordLength (c :: cs) with
  | 0 => none
  | n + 1 => some (.classify (String.ofList (c :: cs.take n)), n)

/-- A run of plain characters, or one stray character. -/
def unknown (c : Char) (cs : List Char) : TokenKind × Nat :=
  (.unknown, if isPlain c then (cs.takeWhile isPlain).length else 0)

/-- The first rule that fits. -/
def scan (c : Char) (cs : List Char) : TokenKind × Nat :=
  (arrow? c cs <|> quoted? c cs <|> punctuation? c <|> color? c cs <|> word? c cs).getD
    (unknown c cs)

/-- The value of a lexeme: its text, for a string what stands between the quotes. -/
def value (kind : TokenKind) (text : List Char) : String :=
  String.ofList (if kind = .string then text.tail.dropLast else text)

end Lexeme

/-- A byte offset with its line and column. -/
structure Place where
  offset : Nat
  line : Nat
  column : Nat
deriving DecidableEq, Repr

/-- The place after some text of one line. -/
def Place.after (p : Place) (text : List Char) : Place :=
  ⟨p.offset + utf8Length text, p.line, p.column + text.length⟩

/-- The tokens of a line that starts at `p`. -/
def lexLine (p : Place) : List Char → List Token
  | [] => []
  | c :: cs =>
    if isBlank c then lexLine (p.after [c]) cs
    else
      let kind := (Lexeme.scan c cs).1
      let n := (Lexeme.scan c cs).2
      let text := c :: cs.take n
      let q := p.after text
      ⟨kind, Lexeme.value kind text, ⟨p.offset, q.offset⟩, p.line, p.column⟩ ::
        lexLine q (cs.drop n)
termination_by cs => cs.length
decreasing_by
  all_goals simp only [List.length_cons, List.length_drop]; omega

/-- A blank line, or one whose first visible characters are two slashes. -/
def isSilent (line : List Char) : Bool :=
  match line.dropWhile isBlank with
  | [] => true
  | c :: cs => c == '/' && cs.head? == some '/'

/-- The tokens of a text whose first line has the given number and byte offset. -/
def lexFrom (line offset : Nat) (cs : List Char) : List Token :=
  let text := cs.takeWhile (· != '\n')
  let tokens := if isSilent text then [] else lexLine ⟨offset, line, 1⟩ text
  match _h : cs.dropWhile (· != '\n') with
  | [] => tokens
  | _ :: rest => tokens ++ lexFrom (line + 1) (offset + utf8Length text + 1) rest
termination_by cs.length
decreasing_by
  have h' := (List.dropWhile_suffix (l := cs) (· != '\n')).length_le
  rw [_h, List.length_cons] at h'
  omega

def tokenize (source : String) : List Token :=
  lexFrom 1 0 source.toList

end ArchDiagram
