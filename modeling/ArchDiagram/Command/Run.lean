import ArchDiagram.FileTree
import ArchDiagram.Settings.Toml.Reader
import ArchDiagram.Workbench

/-! One run of the program: settings, input, output. What to do is decided before anything is
written. -/
namespace ArchDiagram

/-- What a run is asked to do. -/
structure Request where
  input : String
  output : Option String := none
  /-- A settings file that takes the place of the usual ones. -/
  config : Option String := none
  /-- Whether to parse and validate only. -/
  check : Bool := false
deriving DecidableEq, Repr

/-- What a successful run leaves behind. -/
inductive Effect where
  | none
  | write (path text : String)
  | print (text : String)
deriving DecidableEq, Repr

/-- What a run can see: the files, and where settings for the user are kept. -/
structure Surroundings where
  lookup : String → Lookup
  platformSettings : Option String

def localSettings : String :=
  "isoarch/config.toml"

def isAbsolute (path : String) : Bool :=
  path.toList.head? == some '/'

def joinPath (directory name : String) : String :=
  if directory.toList.getLast? = some '/' then directory ++ name else directory ++ "/" ++ name

/-- Where the settings of the user are kept: in the directory that is set for settings, which counts
only as an absolute path, or else in that of the home directory. Nothing is known without a home. -/
def userSettings (configHome home : Option String) : Option String :=
  (home.filter (· ≠ "")).map fun home =>
    let directory := (configHome.filter isAbsolute).getD (joinPath home ".config")
    joinPath directory "isoarch/config.toml"

namespace Surroundings

def readText (w : Surroundings) (path : String) : Except Problem String :=
  (w.lookup path).text.mapError .file

def readSettings (w : Surroundings) (path : String) : Except Problem Settings :=
  if (w.lookup path).isPresent then do
    let text ← w.readText path
    (Toml.settings? text).elim (.error (.file .malformedSettings)) .ok
  else .error (.file (.missingSettings path))

/-- The settings of the file that is asked for, or else of the local file, or else of the user's
file; with none of them, the default ones. -/
def settings (w : Surroundings) (explicit : Option String) : Attempt Problem Settings :=
  match explicit with
  | some path => do
    Logged.report (.settingsExplicit path)
    liftExcept (w.readSettings path)
  | none =>
    if (w.lookup localSettings).isPresent then do
      Logged.report (.settingsLocal localSettings)
      liftExcept (w.readSettings localSettings)
    else
      match w.platformSettings with
      | some path =>
        if (w.lookup path).isPresent then do
          Logged.report (.settingsPlatform path)
          liftExcept (w.readSettings path)
        else do
          Logged.report (.settingsPlatformAbsent path)
          Logged.report .settingsDefault
          return {}
      | none => do
        Logged.report .settingsPlatformUnknown
        Logged.report .settingsDefault
        return {}

end Surroundings

namespace Request

/-- What the request comes to. -/
def effect (r : Request) (w : Surroundings) : Attempt Problem Effect := do
  Logged.report (.processing r.input r.output r.check)
  let settings ← w.settings r.config
  let source ← liftExcept (w.readText r.input)
  let bench : Workbench := ⟨settings⟩
  let d ← bench.parse source
  if r.check then
    Logged.report (.inputValid r.input)
    return .none
  else
    match r.output with
    | some path => return .write path (bench.toJson d)
    | none => return .print (bench.toJson d ++ "\n")

/-- Settles a request after its effect has been tried. -/
def settle (tried : Except FileFault Unit) (x : Attempt Problem Effect) : Attempt Problem Effect :=
  do
    let e ← x
    match e, tried with
    | .write path _, .ok _ => Logged.report (.modelWritten path)
    | _, .error fault => throw (.file fault)
    | _, .ok _ => pure ()
    return e

end Request

namespace FileTree

def surroundings (t : FileTree) (platformSettings : Option String) : Surroundings :=
  ⟨t.lookup, platformSettings⟩

/-- The tree after an effect, and the fault if it could not be had. -/
def apply (t : FileTree) : Effect → FileTree × Except FileFault Unit
  | .write path text =>
    match t.write path text.toUTF8 with
    | .ok t' => (t', .ok ())
    | .error fault => (t, .error fault)
  | .none | .print _ => (t, .ok ())

/-- Runs a request on a tree of files. -/
def run (t : FileTree) (platformSettings : Option String) (r : Request) :
    FileTree × Attempt Problem Effect :=
  let x := r.effect (t.surroundings platformSettings)
  match x.outcome with
  | .error _ => (t, x)
  | .ok e => ((t.apply e).1, Request.settle (t.apply e).2 x)

end FileTree

end ArchDiagram
