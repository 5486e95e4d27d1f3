import ArchDiagram.Command.Run

/-! The arguments of the program. -/
namespace ArchDiagram

/-- What the arguments ask for. -/
inductive Invocation where
  | version
  | help
  | run (request : Request) (level : String)
deriving DecidableEq, Repr

/-- Why arguments cannot be understood. -/
inductive UsageFault where
  | unknownOption (option : String)
  | missingValue (option : String)
  | needlessValue (option : String)
  | repeated (option : String)
  | surplusInput (argument : String)
  | missingInput
deriving DecidableEq, Repr

def UsageFault.message : UsageFault → String
  | unknownOption option => s!"error: unexpected argument '{option}' found"
  | missingValue option => s!"error: a value is required for '{option}' but none was supplied"
  | needlessValue option => s!"error: unexpected value for '{option}' found"
  | repeated option => s!"error: the argument '{option}' cannot be used multiple times"
  | surplusInput argument => s!"error: unexpected argument '{argument}' found"
  | missingInput => "error: the required argument <INPUT> was not provided"

/-- The options that take a value. -/
inductive Setting where
  | output
  | config
  | logLevel
deriving DecidableEq, Repr

def Setting.name : Setting → String
  | output => "output"
  | config => "config"
  | logLevel => "log-level"

/-- The arguments read so far. -/
structure Gathered where
  input : Option String := none
  output : Option String := none
  config : Option String := none
  logLevel : Option String := none
  check : Bool := false

namespace Gathered

/-- Gives an option its value, once. -/
def set (g : Gathered) (s : Setting) (value : String) : Except UsageFault Gathered :=
  let once (old : Option String) (new : Gathered) :=
    if old.isSome then .error (.repeated s.name) else .ok new
  match s with
  | .output => once g.output { g with output := some value }
  | .config => once g.config { g with config := some value }
  | .logLevel => once g.logLevel { g with logLevel := some value }

def setCheck (g : Gathered) : Except UsageFault Gathered :=
  if g.check then .error (.repeated "check") else .ok { g with check := true }

def setInput (g : Gathered) (path : String) : Except UsageFault Gathered :=
  if g.input.isSome then .error (.surplusInput path) else .ok { g with input := some path }

/-- Warnings are shown unless another level is asked for. -/
def toInvocation (g : Gathered) : Except UsageFault Invocation :=
  match g.input with
  | none => .error .missingInput
  | some input => .ok (.run ⟨input, g.output, g.config, g.check⟩ (g.logLevel.getD "warn"))

end Gathered

/-- One argument before any `--`. -/
inductive Argument where
  | input (path : String)
  | valued (setting : Setting) (value : Option String)
  | check
  | version
  | help
  | separator
  | faulty (fault : UsageFault)

namespace Argument

/-- An option by its long name, and the text after `=` if there is one. -/
def ofLong (name : String) (value : Option String) : Argument :=
  let plain (a : Argument) := if value.isSome then faulty (.needlessValue name) else a
  if name = "output" then valued .output value
  else if name = "config" then valued .config value
  else if name = "log-level" then valued .logLevel value
  else if name = "check" then plain check
  else if name = "version" then plain version
  else if name = "help" then plain help
  else faulty (.unknownOption name)

/-- The value that stands in the same argument as a short option. -/
def attached : List Char → Option String
  | [] => none
  | c :: cs => some (String.ofList (if c == '=' then cs else c :: cs))

/-- An option by its short name, and the characters that follow it. -/
def ofShort (c : Char) (cs : List Char) : Argument :=
  if c == 'o' then valued .output (attached cs)
  else if c == 'c' then valued .config (attached cs)
  else if c == 'V' then version
  else if c == 'h' then help
  else faulty (.unknownOption (String.ofList (c :: cs)))

/-- A lone dash is an input, like everything that no dash opens. -/
def ofText (s : String) : Argument :=
  match s.toList with
  | ['-', '-'] => separator
  | '-' :: '-' :: cs =>
    let name := cs.takeWhile (· != '=')
    let rest := cs.dropWhile (· != '=')
    ofLong (String.ofList name) (if rest.isEmpty then none else some (String.ofList rest.tail))
  | '-' :: c :: cs => ofShort c cs
  | _ => input s

/-- Whether the argument can be the value of an option before it. -/
def isValue : Argument → Bool
  | input _ => true
  | _ => false

end Argument

/-- Reads arguments from left to right; the first fault, and the first wish for help or for the
version, settles it. -/
def Gathered.read (g : Gathered) : List String → Except UsageFault Invocation
  | [] => g.toInvocation
  | arg :: rest =>
    match Argument.ofText arg with
    | .input path => do (← g.setInput path).read rest
    | .check => do (← g.setCheck).read rest
    | .version => .ok .version
    | .help => .ok .help
    | .faulty fault => .error fault
    | .separator => do (← rest.foldlM Gathered.setInput g).toInvocation
    | .valued s (some value) => do (← g.set s value).read rest
    | .valued s none =>
      match rest with
      | [] => .error (.missingValue s.name)
      | value :: rest =>
        if (Argument.ofText value).isValue then do (← g.set s value).read rest
        else .error (.missingValue s.name)

/-- What a list of arguments asks for. -/
def Invocation.ofArguments (args : List String) : Except UsageFault Invocation :=
  Gathered.read {} args

end ArchDiagram
