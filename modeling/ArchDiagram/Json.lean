import ArchDiagram.Number.Shortest

/-! JSON values and their text. -/
namespace ArchDiagram

inductive Json where
  | null
  | number (x : Binary64)
  | string (s : String)
  | array (items : List Json)
  | object (members : List (String × Json))

/-- Whether a text is written on one line or spread over many. -/
inductive Spacing where
  | compact
  | indented
deriving DecidableEq, Repr

namespace Spacing

/-- What stands before an item at some depth, and before the bracket that closes it. -/
def lineBreak : Spacing → Nat → String
  | compact, _ => ""
  | indented, depth => String.ofList ('\n' :: List.replicate (2 * depth) ' ')

def colon : Spacing → String
  | compact => ":"
  | indented => ": "

end Spacing

namespace Json

/-- Positional from `10 ^ -5` to below `10 ^ 16`, always with a point there, and otherwise with a
signed exponent. -/
def numberLayout : NumberLayout :=
  ⟨.even, some (-5, 15), true⟩

def hexDigit (n : Nat) : Char :=
  if n < 10 then Char.ofNat (0x30 + n) else Char.ofNat (0x61 + (n - 10))

/-- Only quotes, backslashes and control characters are escaped. -/
def escape (c : Char) : List Char :=
  if c == '"' then ['\\', '"']
  else if c == '\\' then ['\\', '\\']
  else if c.toNat = 0x08 then ['\\', 'b']
  else if c.toNat = 0x09 then ['\\', 't']
  else if c.toNat = 0x0A then ['\\', 'n']
  else if c.toNat = 0x0C then ['\\', 'f']
  else if c.toNat = 0x0D then ['\\', 'r']
  else if c.toNat < 0x20 then
    ['\\', 'u', '0', '0', hexDigit (c.toNat / 16), hexDigit (c.toNat % 16)]
  else [c]

def quote (s : String) : String :=
  String.ofList ('"' :: (s.toList.flatMap escape ++ ['"']))

mutual

/-- The text of a value that stands `depth` levels deep. -/
def write (sp : Spacing) (depth : Nat) : Json → String
  | null => "null"
  | number x => numberLayout.write x
  | string s => quote s
  | array [] => "[]"
  | array (x :: xs) =>
    "[" ++ sp.lineBreak (depth + 1) ++ write sp (depth + 1) x ++ writeItems sp (depth + 1) xs ++
      sp.lineBreak depth ++ "]"
  | object [] => "\x7b\x7d"
  | object ((k, v) :: ms) =>
    "\x7b" ++ sp.lineBreak (depth + 1) ++ quote k ++ sp.colon ++ write sp (depth + 1) v ++
      writeMembers sp (depth + 1) ms ++ sp.lineBreak depth ++ "\x7d"

def writeItems (sp : Spacing) (depth : Nat) : List Json → String
  | [] => ""
  | x :: xs => "," ++ sp.lineBreak depth ++ write sp depth x ++ writeItems sp depth xs

def writeMembers (sp : Spacing) (depth : Nat) : List (String × Json) → String
  | [] => ""
  | (k, v) :: ms =>
    "," ++ sp.lineBreak depth ++ quote k ++ sp.colon ++ write sp depth v ++
      writeMembers sp depth ms

end

def text (sp : Spacing) (j : Json) : String :=
  write sp 0 j

/-- A missing value is `null`. -/
def ofOption : Option String → Json
  | none => null
  | some s => string s

end Json

end ArchDiagram
