import ArchDiagram.OrderedMap
import ArchDiagram.Route

/-! A directory with its files, as a value. -/
namespace ArchDiagram

/-- A file, and what keeps the program from reading it or from writing it, if anything does. -/
structure File where
  content : ByteArray
  unreadable : Option FileFault := none
  unwritable : Option FileFault := none

/-- Files are compared byte by byte. -/
instance : DecidableEq File := fun f g =>
  decidable_of_iff
    (f.content.data = g.content.data ∧ f.unreadable = g.unreadable ∧ f.unwritable = g.unwritable) <| by
    cases f
    cases g
    simp [ByteArray.ext_iff]

namespace File

def text (f : File) : Except FileFault String :=
  match f.unreadable with
  | some fault => .error fault
  | none => (String.fromUTF8? f.content).elim (.error .invalidText) .ok

/-- The file with other content. -/
def rewrite (f : File) (content : ByteArray) : Except FileFault File :=
  match f.unwritable with
  | some fault => .error fault
  | none => .ok { f with content }

end File

/-- What is found under a path. -/
inductive Lookup where
  | absent (fault : FileFault)
  | directory
  | file (f : File)
deriving DecidableEq

namespace Lookup

/-- Whether there is something under the path. It need not be readable. -/
def isPresent : Lookup → Bool
  | directory | file _ => true
  | absent _ => false

/-- The text of a file. -/
def text : Lookup → Except FileFault String
  | absent fault => .error fault
  | directory => .error .isDirectory
  | file f => f.text

/-- The file that is there once the content has been written to it. -/
def rewrite (content : ByteArray) : Lookup → Except FileFault File
  | absent .notFound => .ok { content }
  | absent fault => .error fault
  | directory => .error .isDirectory
  | file f => f.rewrite content

end Lookup

/-- Names that lead from the root of a tree to a file or a directory. Outside of the tree they begin
with `..` or, seen from the outermost directory, with `/`. -/
abbrev Location := List String

namespace Location

/-- The tree itself, and the directories around it. -/
def isOuter (p : Location) : Bool :=
  p.getLast?.all fun name => name == ".." || name == "/"

/-- The directory around a place; the outermost one has none but itself. -/
def parent (p : Location) : Location :=
  match p.getLast? with
  | none => [".."]
  | some name => if name = ".." then p ++ [".."] else if name = "/" then p else p.dropLast

/-- Where a name leads from a directory. -/
def move (p : Location) (name : String) : Location :=
  if name = "." then p else if name = ".." then p.parent else p ++ [name]

end Location

/-- What stands at a place. -/
inductive Entry where
  | directory
  | file (f : File)
deriving DecidableEq

def Entry.found : Entry → Lookup
  | directory => .directory
  | file f => .file f

/-- Files and directories at their places. Only an empty directory has to be listed. -/
structure FileTree where
  entries : OrderedMap Location Entry

namespace FileTree

def ofEntries (entries : List (String × Entry)) : FileTree :=
  let place (path : String) := (Route.names path.toList).foldl Location.move []
  ⟨entries.foldl (fun m e => m.insert (place e.1) e.2) ∅⟩

/-- The tree of some files; directories are made as needed. -/
def ofFiles (files : List (String × ByteArray)) : FileTree :=
  ofEntries (files.map fun f => (f.1, .file { content := f.2 }))

/-- Whether a place is a directory for what is in it, or because it lies around the tree. -/
def isOccupied (t : FileTree) (place : Location) : Bool :=
  place.isOuter || t.entries.keys.any fun key => place.isPrefixOf key && place.length < key.length

/-- What has a name in a directory. -/
def find (t : FileTree) (place : Location) (name : String) : Lookup :=
  if Route.isLong name then .absent .nameTooLong
  else
    match t.entries.get? (place ++ [name]) with
    | some entry => entry.found
    | none => if t.isOccupied (place ++ [name]) then .directory else .absent .notFound

/-- Goes from a directory through others. -/
def follow (t : FileTree) (place : Location) : List String → Except FileFault Location
  | [] => .ok place
  | name :: rest =>
    if Route.isDots name then t.follow (place.move name) rest
    else
      match t.find place name with
      | .directory => t.follow (place.move name) rest
      | .file _ => .error .notDirectory
      | .absent fault => .error fault

/-- The directory in which a route finds its target. -/
def directory (t : FileTree) (r : Route) : Except FileFault Location :=
  t.follow (if r.absolute then ["/"] else []) r.through

/-- What a path leads to. With a slash at its end it cannot lead to a file. -/
def lookup (t : FileTree) (path : String) : Lookup :=
  let found : Except FileFault Lookup := do
    let r ← Route.ofPath path
    let place ← t.directory r
    match r.target with
    | none => return .directory
    | some name =>
      match t.find place name with
      | .file f => return if r.closed then .absent .notDirectory else .file f
      | other => return other
  match found with
  | .ok l => l
  | .error fault => .absent fault

/-- Writes a file. Its directory has to be there. -/
def write (t : FileTree) (path : String) (content : ByteArray) : Except FileFault FileTree := do
  let r ← Route.ofPath path
  let place ← t.directory r
  match r.target with
  | none => .error .isDirectory
  | some name =>
    if r.closed then .error .isDirectory
    else
      let file ← (t.find place name).rewrite content
      return ⟨t.entries.insert (place ++ [name]) (.file file)⟩

end FileTree

end ArchDiagram
