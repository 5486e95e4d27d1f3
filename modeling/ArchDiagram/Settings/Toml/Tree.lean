import ArchDiagram.Settings.Basic

/-! The tables of a TOML document while it is read. A table is opened once: by a header, by dotted
keys, or by being named on the way to another one. -/
namespace ArchDiagram.Toml

/-- How a table came to be. -/
inductive Origin where
  | header
  | implied
  | dotted
deriving DecidableEq, Repr

inductive Node where
  | leaf (value : Document)
  | table (origin : Origin) (entries : List (String × Node))
  /-- A list of tables, of which the last one can still grow. -/
  | tables (earlier : List Document) (entries : List (String × Node))

abbrev Entries := List (String × Node)

mutual

def Node.toDocument : Node → Document
  | .leaf v => v
  | .table _ entries => .table (documents entries)
  | .tables earlier entries => .list (earlier ++ [.table (documents entries)])

def documents : List (String × Node) → List (String × Document)
  | [] => []
  | (k, n) :: rest => (k, n.toDocument) :: documents rest

end

namespace Entries

/-- Gives a present key another node, or adds the key at the end. -/
def set (k : String) (n : Node) : Entries → Entries
  | [] => [(k, n)]
  | e :: es => if e.1 = k then (k, n) :: es else e :: set k n es

/-- Changes the entries of the table that the names of a header lead to. -/
def within (change : Entries → Option Entries) : List String → Entries → Option Entries
  | [], es => change es
  | k :: path, es =>
    match es.lookup k with
    | none => (within change path []).map fun inner => es ++ [(k, .table .implied inner)]
    | some (.table o inner) => (within change path inner).map fun inner => es.set k (.table o inner)
    | some (.tables earlier inner) =>
      (within change path inner).map fun inner => es.set k (.tables earlier inner)
    | some (.leaf _) => none

/-- Opens a table by its header. -/
def openTable (k : String) (es : Entries) : Option Entries :=
  match es.lookup k with
  | none => some (es ++ [(k, .table .header [])])
  | some (.table .implied inner) => some (es.set k (.table .header inner))
  | some _ => none

/-- Adds a table to a list of tables. -/
def openItem (k : String) (es : Entries) : Option Entries :=
  match es.lookup k with
  | none => some (es ++ [(k, .tables [] [])])
  | some (.tables earlier inner) =>
    some (es.set k (.tables (earlier ++ [.table (documents inner)]) []))
  | some _ => none

/-- Gives a dotted key its value. A table that a header opened cannot grow in this way; the last one
of a list cannot either, but the tables in it can. -/
def put (v : Document) : List String → Entries → Option Entries
  | [], _ => none
  | [k], es => if (es.lookup k).isSome then none else some (es ++ [(k, .leaf v)])
  | k :: path, es =>
    match es.lookup k with
    | none => (put v path []).map fun inner => es ++ [(k, .table .dotted inner)]
    | some (.table .header _) => none
    | some (.table o inner) => (put v path inner).map fun inner => es.set k (.table o inner)
    | some (.tables earlier inner) =>
      if path.length = 1 then none
      else (put v path inner).map fun inner => es.set k (.tables earlier inner)
    | some (.leaf _) => none

end Entries

end ArchDiagram.Toml
