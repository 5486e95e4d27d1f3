import ArchDiagram.Settings.Toml.Scalar
import ArchDiagram.Settings.Toml.Tree

/-! Settings from TOML. -/
namespace ArchDiagram.Toml

/-- Lists and inline tables nest at most this deep, and a dotted key has at most as many parts. -/
def maxDepth : Nat := 80

def isBareChar (c : Char) : Bool :=
  c.isAlphanum || c == '_' || c == '-'

def simpleKey? (cs : List Char) : Option (String × List Char) :=
  match shortString? cs with
  | some key => some key
  | none =>
    let word := cs.takeWhile isBareChar
    if word.isEmpty then none else some (String.ofList word, cs.dropWhile isBareChar)

/-- At most `limit` keys with dots between them, on one line. -/
def dottedKey : (limit : Nat) → Reader (List String)
  | 0, _ => none
  | limit + 1, cs => do
    let (k, rest) ← simpleKey? (skipSpace cs)
    match skipSpace rest with
    | '.' :: more =>
      let (ks, rest) ← dottedKey limit more
      return (k :: ks, rest)
    | rest => return ([k], rest)

def key? : Reader (List String) :=
  dottedKey maxDepth

/-- A key, an equals sign and a value; `skip` drops what may stand around the sign. -/
def pair? (skip : List Char → List Char) (value : Reader Document) (cs : List Char) :
    Option ((List String × Document) × List Char) := do
  let (path, rest) ← key? cs
  match skip rest with
  | '=' :: rest =>
    let (v, rest) ← value (skip rest)
    return ((path, v), rest)
  | _ => none

/-- The items of a list up to its closing bracket; a comma may follow the last. -/
def items (value : Reader Document) : Nat → Reader (List Document)
  | 0, _ => none
  | fuel + 1, cs =>
    match skipLines false cs with
    | ']' :: rest => some ([], rest)
    | cs => do
      let (v, rest) ← value cs
      match skipLines false rest with
      | ',' :: rest =>
        let (vs, rest) ← items value fuel rest
        return (v :: vs, rest)
      | ']' :: rest => return ([v], rest)
      | _ => none

/-- The pairs of an inline table up to its closing brace; a comma may follow the last. -/
def pairs (value : Reader Document) : Nat → Entries → Reader Entries
  | 0, _, _ => none
  | fuel + 1, es, cs =>
    match skipLines false cs with
    | '}' :: rest => some (es, rest)
    | cs => do
      let ((path, v), rest) ← pair? (skipLines false) value cs
      let es ← es.put v path
      match skipLines false rest with
      | ',' :: rest => pairs value fuel es rest
      | '}' :: rest => return (es, rest)
      | _ => none

/-- A value that holds no other. -/
def plain? (cs : List Char) : Option (Document × List Char) :=
  match cs with
  | '"' :: _ | '\x27' :: _ => (string? cs).map fun r => (.text r.1, r.2)
  | _ => atom? cs

/-- A value in which lists and inline tables nest at most `depth` deep. -/
def value? : (depth : Nat) → Reader Document
  | 0, cs => plain? cs
  | depth + 1, cs =>
    match cs with
    | '[' :: rest => (items (value? depth) cs.length rest).map fun r => (.list r.1, r.2)
    | '{' :: rest =>
      (pairs (value? depth) cs.length [] rest).map fun r => (.table (documents r.1), r.2)
    | _ => plain? cs

/-- A document so far: its tables, and the path of the one that is open. -/
structure State where
  root : Entries := []
  path : List String := []

/-- What is left after the one or two brackets that close a header. -/
def closeHeader? (isItem : Bool) : List Char → Option (List Char)
  | ']' :: rest => if !isItem then some rest else if rest.head? == some ']' then rest.tail? else none
  | _ => none

/-- What follows the opening bracket of a header. -/
def header? (s : State) (cs : List Char) : Option (State × List Char) := do
  let (isItem, cs) := match cs with
    | '[' :: rest => (true, rest)
    | rest => (false, rest)
  let (path, rest) ← key? cs
  let rest ← closeHeader? isItem rest
  let name ← path.getLast?
  let change := if isItem then Entries.openItem name else Entries.openTable name
  let root ← s.root.within change path.dropLast
  let rest ← endLine? rest
  return (⟨root, path⟩, rest)

/-- Reads the lines of a document. `fuel` bounds their number. -/
def lines : Nat → State → List Char → Option Entries
  | 0, _, _ => none
  | fuel + 1, s, cs =>
    match skipSpace cs with
    | [] => some s.root
    | '[' :: rest => (header? s rest).bind fun r => lines fuel r.1 r.2
    | cs =>
      match endLine? cs with
      | some rest => lines fuel s rest
      | none => do
        let ((path, v), rest) ← pair? skipSpace (value? maxDepth) cs
        let root ← s.root.within (Entries.put v path) s.path
        let rest ← endLine? rest
        lines fuel { s with root } rest

/-- The table that a text holds; a byte order mark in front is dropped. -/
def read? (text : String) : Option Document :=
  let cs := match text.toList with
    | '\uFEFF' :: cs => cs
    | cs => cs
  (lines (cs.length + 1) {} cs).map fun es => .table (documents es)

/-- A list that stands for a table may have items left over, and a choice without a value is
accompanied by an empty table or list. -/
def format : Format :=
  ⟨true, Document.isEmptyCollection⟩

/-- The settings that a text holds. -/
def settings? (text : String) : Option Settings :=
  (read? text).bind (Settings.read? format)

end ArchDiagram.Toml
