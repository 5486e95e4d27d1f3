import ArchDiagram.Command.Session

/-! The program itself: it looks at the files that a request can need, and does what was decided. -/
namespace ArchDiagram

/-- What the system says, as a fault. -/
def FileFault.ofError : IO.Error → FileFault
  | .noFileOrDirectory .. => .notFound
  | .permissionDenied .. => .permissionDenied
  | .inappropriateType _ code _ => if code = 21 then .isDirectory else .notDirectory
  | .invalidArgument _ code _ => if code = 22 then .invalidName else .nameTooLong
  | error => .other error.toString

/-- What cannot be read is still there if the system finds its place. -/
def lookAt (path : String) : IO Lookup := do
  try
    return .file { content := ← IO.FS.readBinFile path }
  catch error =>
    let fault := FileFault.ofError error
    try
      let found ← (← IO.FS.realPath path).metadata
      if found.type == .dir then return .directory
      return .file { content := .empty, unreadable := some fault }
    catch _ => return .absent fault

def tryWrite (path text : String) : IO (Except FileFault Unit) := do
  try
    IO.FS.writeFile path text
    return .ok ()
  catch error => return .error (.ofError error)

def runRequest (request : Request) (level : String) : IO Transcript := do
  let platform := userSettings (← IO.getEnv "XDG_CONFIG_HOME") (← IO.getEnv "HOME")
  let paths := [request.input, localSettings] ++ request.config.toList ++ platform.toList
  let seen ← paths.mapM fun path => return (path, ← lookAt path)
  let x := request.effect ⟨fun path => (seen.lookup path).getD (.absent .notFound), platform⟩
  let tried ← match x.outcome with
    | .ok (.write path text) => tryWrite path text
    | _ => pure (.ok ())
  return .ofRun request level (Request.settle tried x)

def present (t : Transcript) : IO UInt32 := do
  for remark in t.remarks do
    IO.eprintln remark
  IO.print t.output
  return t.exitCode.toUInt32

end ArchDiagram

open ArchDiagram in
def main (args : List String) : IO UInt32 := do
  match Invocation.ofArguments args with
  | .error fault => present (.ofUsage fault)
  | .ok .version => present .version
  | .ok .help => present .help
  | .ok (.run request level) => present (← runRequest request level)
