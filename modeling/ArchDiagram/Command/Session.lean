import ArchDiagram.Command.Line

/-! What the program prints, and with which code it ends. -/
namespace ArchDiagram

/-- What a user sees of a session. -/
structure Transcript where
  exitCode : Nat
  output : String
  /-- The lines that are not part of the output: reports of any kind. -/
  remarks : List String
deriving DecidableEq, Repr

def versionText : String :=
  "isoarch-cli 0.1.0\n"

def helpText : String :=
  "Usage: isoarch [OPTIONS] <INPUT>\n\n" ++
    "Arguments:\n  <INPUT>  Path to the input file\n\n" ++
    "Options:\n" ++
    "  -o, --output <OUTPUT>        Path to the output JSON file\n" ++
    "  -c, --config <CONFIG>        Path to configuration file (TOML)\n" ++
    "      --log-level <LOG_LEVEL>  Log level (off, error, warn, info, debug, trace)\n" ++
    "      --check                  Only parse and validate; write no output\n" ++
    "  -h, --help                   Print help\n" ++
    "  -V, --version                Print version\n"

/-- An unknown level is reported, and stands for warnings. -/
def chooseThreshold (level : String) : List String × Threshold :=
  match Threshold.ofName? level with
  | some t => ([], t)
  | none => ([s!"Invalid log level: {level}. Using 'warn' instead."], some .warn)

def Event.line (e : Event) : String :=
  let details := e.details.map fun d => s!" {d.1}={d.2}"
  s!"[{e.level.name}] {e.message}" ++ String.join details

def Report.lines (r : Report) : List String :=
  let code := (r.code.map fun c => s!"[{c}]").getD ""
  let marks := (r.marks.getD []).map fun m =>
    s!"  bytes {m.offset} to {m.offset + m.length}: {m.message}"
  [s!"error{code}: {r.message}"] ++ marks ++ (r.help.map fun h => s!"  help: {h}").toList

/-- The transcript of a run whose request has been settled. -/
def Transcript.ofRun (r : Request) (level : String) (x : Attempt Problem Effect) : Transcript :=
  let (notice, threshold) := chooseThreshold level
  let log (es : List Event) := (es.filter fun e => threshold.admits e.level).map Event.line
  let opening := notice ++ log ([.started threshold, .arguments r.input] ++ x.events)
  match x.outcome with
  | .error problem => ⟨1, "", opening ++ problem.reports.flatMap Report.lines⟩
  | .ok effect =>
    let printed := match effect with
      | .print text => text
      | .none | .write .. => ""
    ⟨0, if r.check then s!"{r.input}: ok\n" else printed, opening ++ log [.completed]⟩

def Transcript.ofUsage (fault : UsageFault) : Transcript :=
  ⟨2, "", [fault.message, "For more information, try '--help'."]⟩

def Transcript.version : Transcript :=
  ⟨0, versionText, []⟩

def Transcript.help : Transcript :=
  ⟨0, helpText, []⟩

/-- A whole session on a tree of files. -/
def FileTree.session (t : FileTree) (platformSettings : Option String) (args : List String) :
    FileTree × Transcript :=
  match Invocation.ofArguments args with
  | .error fault => (t, .ofUsage fault)
  | .ok .version => (t, .version)
  | .ok .help => (t, .help)
  | .ok (.run request level) =>
    let (t', x) := t.run platformSettings request
    (t', .ofRun request level x)

end ArchDiagram
