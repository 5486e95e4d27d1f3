import ArchDiagram.Number.Decimal
import ArchDiagram.Settings.Basic

/-! The smallest parts of TOML: white space, comments, strings, numbers and dates. -/
namespace ArchDiagram.Toml

/-- Reads a value off the front of a text. -/
abbrev Reader (α : Type) := List Char → Option (α × List Char)

def isSpace (c : Char) : Bool :=
  c == ' ' || c == '\t'

def skipSpace (cs : List Char) : List Char :=
  cs.dropWhile isSpace

/-- The characters of comments and strings: no control characters but the tab. -/
def isText (c : Char) : Bool :=
  c == '\t' || (0x20 ≤ c.toNat && c.toNat != 0x7F)

/-- What is left after a line break at the front. -/
def lineBreak? : List Char → Option (List Char)
  | '\n' :: cs => some cs
  | '\r' :: '\n' :: cs => some cs
  | _ => none

/-- What is left after the rest of a line, which may only be a comment. -/
def endLine? (cs : List Char) : Option (List Char) :=
  let rest := match skipSpace cs with
    | '#' :: comment => comment.dropWhile isText
    | other => other
  if rest.isEmpty then some [] else lineBreak? rest

/-- Drops white space, line breaks and comments. -/
def skipLines (comment : Bool) : List Char → List Char
  | [] => []
  | c :: cs =>
    if c == '\n' || (c == '\r' && cs.head? == some '\n') then skipLines false cs
    else if comment then if isText c then skipLines true cs else c :: cs
    else if isSpace c then skipLines false cs
    else if c == '#' then skipLines true cs
    else c :: cs

/-- Drops white space and line breaks. -/
def skipBreaks : List Char → List Char
  | '\r' :: '\n' :: cs => skipBreaks cs
  | c :: cs => if isSpace c || c == '\n' then skipBreaks cs else c :: cs
  | [] => []

def hexValue? (c : Char) : Option Nat :=
  if '0' ≤ c && c ≤ '9' then some (c.toNat - '0'.toNat)
  else if 'a' ≤ c && c ≤ 'f' then some (c.toNat - 'a'.toNat + 10)
  else if 'A' ≤ c && c ≤ 'F' then some (c.toNat - 'A'.toNat + 10)
  else none

/-- The character whose number is spelled in hexadecimal digits. -/
def codePoint? (ds : List Char) : Option Char := do
  let n ← ds.foldlM (fun n d => (hexValue? d).map (16 * n + ·)) 0
  if n.isValidChar then some (Char.ofNat n) else none

/-- The character that a backslash and a letter stand for. -/
def shortEscape? (c : Char) : Option Char :=
  [('b', '\x08'), ('t', '\t'), ('n', '\n'), ('f', '\x0c'), ('r', '\r'), ('e', '\x1b'), ('"', '"'),
    ('\\', '\\')].lookup c

/-- How many digits of a code point follow the letter of an escape. -/
def escapeDigits? (c : Char) : Option Nat :=
  [('x', 2), ('u', 4), ('U', 8)].lookup c

/-- The character of an escape, after its backslash. -/
def escape? : Reader Char
  | [] => none
  | c :: cs =>
    match escapeDigits? c with
    | some n => if (cs.take n).length < n then none else (codePoint? (cs.take n)).map (·, cs.drop n)
    | none => (shortEscape? c).map (·, cs)

/-- The quote that ends a string of several lines may stand inside it once or twice. -/
def closing? (quote : Char) (cs : List Char) : Option (List Char × List Char) :=
  if cs.take 3 == [quote, quote, quote] then
    let extra := ((cs.drop 3).takeWhile (· == quote)).take 2
    some (extra, cs.drop (3 + extra.length))
  else none

/-- The rest of a string in double quotes. `fuel` bounds its length. -/
def basicString (long : Bool) : Nat → Reader (List Char)
  | 0, _ => none
  | _, [] => none
  | fuel + 1, c :: cs =>
    let add (d : Char) (rest : List Char) :=
      (basicString long fuel rest).map fun r => (d :: r.1, r.2)
    match if long then closing? '"' (c :: cs) else if c == '"' then some ([], cs) else none with
    | some ending => some ending
    | none =>
      if c == '\\' then
        match if long then lineBreak? (skipSpace cs) else none with
        | some rest => basicString long fuel (skipBreaks rest)
        | none => (escape? cs).bind fun e => add e.1 e.2
      else if isText c then add c cs
      else if long then (lineBreak? (c :: cs)).bind (add '\n')
      else none

/-- The rest of a string in single quotes, which knows no escapes. -/
def literalString (long : Bool) : Nat → Reader (List Char)
  | 0, _ => none
  | _, [] => none
  | fuel + 1, c :: cs =>
    let add (d : Char) (rest : List Char) :=
      (literalString long fuel rest).map fun r => (d :: r.1, r.2)
    match if long then closing? '\x27' (c :: cs) else if c == '\x27' then some ([], cs) else none with
    | some ending => some ending
    | none =>
      if isText c then add c cs
      else if long then (lineBreak? (c :: cs)).bind (add '\n')
      else none

/-- A line break right after the opening quotes is no part of a string of several lines. -/
def afterOpening (cs : List Char) : List Char :=
  (lineBreak? cs).getD cs

/-- A string on one line. -/
def shortString? (cs : List Char) : Option (String × List Char) :=
  match cs with
  | '"' :: rest => (basicString false cs.length rest).map fun r => (String.ofList r.1, r.2)
  | '\x27' :: rest => (literalString false cs.length rest).map fun r => (String.ofList r.1, r.2)
  | _ => none

/-- A string on one line or on several. -/
def string? (cs : List Char) : Option (String × List Char) :=
  match cs with
  | '"' :: '"' :: '"' :: rest =>
    (basicString true cs.length (afterOpening rest)).map fun r => (String.ofList r.1, r.2)
  | '\x27' :: '\x27' :: '\x27' :: rest =>
    (literalString true cs.length (afterOpening rest)).map fun r => (String.ofList r.1, r.2)
  | _ => shortString? cs

/-- Digits with single underscores between them. -/
def isDigitRun (isDigit : Char → Bool) (previous : Bool) : List Char → Bool
  | [] => previous
  | c :: cs =>
    if c == '_' then previous && isDigitRun isDigit false cs
    else isDigit c && isDigitRun isDigit true cs

/-- A decimal number of any length, which no superfluous zero opens. -/
def isWhole (cs : List Char) : Bool :=
  isDigitRun Decimal.isDigit false cs && (cs.head? != some '0' || cs.length == 1)

/-- The number that digits of a base spell, with single underscores between them. -/
def natural? (base : Nat) (ds : List Char) : Option Nat :=
  if isDigitRun (fun d => (hexValue? d).any (· < base)) false ds then
    some (ds.foldl (fun n d => (hexValue? d).elim n (base * n + ·)) 0)
  else none

/-- The integer that a text spells; only decimal ones have a sign. -/
def integer? (cs : List Char) : Option Int :=
  match cs with
  | '0' :: 'x' :: ds => (natural? 16 ds).map Int.ofNat
  | '0' :: 'o' :: ds => (natural? 8 ds).map Int.ofNat
  | '0' :: 'b' :: ds => (natural? 2 ds).map Int.ofNat
  | _ =>
    let (negative, ds) := Decimal.sign cs
    if isWhole ds then
      (natural? 10 ds).map fun n => if negative then -Int.ofNat n else Int.ofNat n
    else none

/-- The integers that can be represented are those of 128 bits, with a sign or without. -/
def isInRange (n : Int) : Bool :=
  -Int.ofNat (power 2 127) ≤ n && n < Int.ofNat (power 2 128)

def isExponent : List Char → Bool
  | c :: cs =>
    (c == 'e' || c == 'E') && isDigitRun Decimal.isDigit false (Decimal.sign cs).2
  | [] => false

/-- The words for what is no finite number. -/
def isSpecial (cs : List Char) : Bool :=
  let word := (Decimal.sign cs).2
  word == ['i', 'n', 'f'] || word == ['n', 'a', 'n']

/-- A decimal number with a fraction, an exponent or both. -/
def isFraction (cs : List Char) : Bool :=
  let body := (Decimal.sign cs).2
  let inWhole (c : Char) := Decimal.isDigit c || c == '_'
  isWhole (body.takeWhile inWhole) &&
    match body.dropWhile inWhole with
    | '.' :: part =>
      isDigitRun Decimal.isDigit false (part.takeWhile inWhole) &&
        (part.all inWhole || isExponent (part.dropWhile inWhole))
    | rest => isExponent rest

/-- Whether a decimal number is less than infinity after rounding. -/
def isFinite (cs : List Char) : Bool :=
  ((Decimal.read? (cs.filter (· != '_'))).bind Decimal.toBinary64?).isSome

/-- Two digits that spell a number in a range. -/
def isTwoDigits (low high : Nat) (cs : List Char) : Bool :=
  cs.length == 2 && cs.all Decimal.isDigit && low ≤ Decimal.ofDigits cs &&
    Decimal.ofDigits cs ≤ high

def isLeap (year : Nat) : Bool :=
  year % 4 == 0 && (year % 100 != 0 || year % 400 == 0)

def monthLength (year month : Nat) : Nat :=
  if month = 2 then if isLeap year then 29 else 28
  else if month ∈ [4, 6, 9, 11] then 30
  else 31

def isDate (cs : List Char) : Bool :=
  let year := cs.take 4
  let month := (cs.drop 5).take 2
  cs.length == 10 && year.all Decimal.isDigit && cs[4]? == some '-' && cs[7]? == some '-' &&
    isTwoDigits 1 12 month &&
    isTwoDigits 1 (monthLength (Decimal.ofDigits year) (Decimal.ofDigits month)) (cs.drop 8)

/-- Hours and minutes, which seconds may follow, which a fraction may follow. -/
def isTime (cs : List Char) : Bool :=
  isTwoDigits 0 23 (cs.take 2) && cs[2]? == some ':' && isTwoDigits 0 59 ((cs.drop 3).take 2) &&
    match cs.drop 5 with
    | [] => true
    | c :: second =>
      c == ':' && isTwoDigits 0 60 (second.take 2) &&
        match second.drop 2 with
        | [] => true
        | d :: part => d == '.' && !part.isEmpty && part.all Decimal.isDigit

/-- A time that may be followed by a distance from universal time. -/
def isZonedTime (cs : List Char) : Bool :=
  let inTime (c : Char) := Decimal.isDigit c || c == ':' || c == '.'
  isTime (cs.takeWhile inTime) &&
    match cs.dropWhile inTime with
    | [] => true
    | c :: zone =>
      ((c == 'Z' || c == 'z') && zone.isEmpty) ||
        ((c == '+' || c == '-') && zone.length == 5 && zone[2]? == some ':' &&
          isTwoDigits 0 23 (zone.take 2) && isTwoDigits 0 59 (zone.drop 3))

def isMoment (cs : List Char) : Bool :=
  isDate cs || isTime cs ||
    (isDate (cs.take 10) && (cs[10]? == some 'T' || cs[10]? == some 't' || cs[10]? == some ' ') &&
      isZonedTime (cs.drop 11))

/-- The characters of numbers, dates and the truth values. -/
def isAtomChar (c : Char) : Bool :=
  c.isAlphanum || c == '+' || c == '-' || c == '_' || c == '.' || c == ':'

/-- A truth value, a number, a date or a time. -/
def scalar? (word : List Char) : Option Document :=
  if word == ['t', 'r', 'u', 'e'] then some (.boolean true)
  else if word == ['f', 'a', 'l', 's', 'e'] then some (.boolean false)
  else
    match integer? word with
    | some n => some (.number (isInRange n))
    | none =>
      if isSpecial word then some (.number true)
      else if isFraction word then some (.number (isFinite word))
      else if isMoment word then some .moment
      else none

/-- Splits a scalar off. Between a date and a time a space may stand. -/
def splitScalar (cs : List Char) : List Char × List Char :=
  let word := cs.takeWhile isAtomChar
  let rest := cs.dropWhile isAtomChar
  match rest with
  | ' ' :: d :: more =>
    if isDate word && Decimal.isDigit d then
      (word ++ ' ' :: (d :: more).takeWhile isAtomChar, (d :: more).dropWhile isAtomChar)
    else (word, rest)
  | _ => (word, rest)

def atom? (cs : List Char) : Option (Document × List Char) :=
  let (word, rest) := splitScalar cs
  (scalar? word).map (·, rest)

end ArchDiagram.Toml
