import ArchDiagram.Problem
import ArchDiagram.Text.Basic

/-! Paths as directions from one directory to another. -/
namespace ArchDiagram

/-- The directions that a path gives. -/
structure Route where
  /-- Whether the path leads from the outermost directory. -/
  absolute : Bool
  /-- The directories to go through. -/
  through : List String
  /-- What is to be found in the last of them; `none` stands for that directory itself. -/
  target : Option String
  /-- Whether a slash at the end asks for a directory. -/
  closed : Bool
deriving DecidableEq, Repr

namespace Route

/-- A path has fewer bytes than this. -/
def maxLength : Nat := 4096

/-- A name has at most so many bytes. -/
def maxNameLength : Nat := 255

def isLong (name : String) : Bool :=
  maxNameLength < Text.utf8Length name.toList

/-- The parts of a text between its slashes. -/
def segments : List Char → List (List Char)
  | [] => [[]]
  | c :: cs =>
    if c = '/' then [] :: segments cs
    else
      match segments cs with
      | [] => [[c]]
      | part :: parts => (c :: part) :: parts

/-- The names in a path; between two slashes there may be none. -/
def names (path : List Char) : List String :=
  ((segments path).filter fun part => !part.isEmpty).map String.ofList

/-- Names that stand for a directory wherever they occur. -/
def isDots (name : String) : Bool :=
  name == "." || name == ".."

def ofNames (absolute closed : Bool) (ns : List String) : Route :=
  match ns.getLast? with
  | none => ⟨absolute, ns, none, closed⟩
  | some last =>
    if isDots last then ⟨absolute, ns, none, closed⟩ else ⟨absolute, ns.dropLast, some last, closed⟩

/-- The empty path leads nowhere. -/
def ofPath (path : String) : Except FileFault Route :=
  let cs := path.toList
  if cs.contains '\x00' then .error .invalidName
  else if maxLength ≤ Text.utf8Length cs then .error .nameTooLong
  else if cs.isEmpty then .error .notFound
  else .ok (ofNames (cs.head? == some '/') (cs.getLast? == some '/') (names cs))

end Route

end ArchDiagram
