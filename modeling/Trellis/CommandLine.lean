import Trellis.Config.Reader
import Trellis.Json.Parser
import Trellis.Report

/-!
# The command line

The command lays out a description, read from a file or given as an argument, and reports the
result. Options take their value after `=` or as the next argument; no option is given twice, and
`--` ends the options.

* `Options.parse`: what the arguments ask for.
* `execute`: the report, or why there is none.
-/
namespace Trellis.CommandLine

inductive Format where
  | tree
  | json
  deriving DecidableEq, Repr

/-- Why the command ends without a report. -/
inductive Failure where
  /-- The arguments are refused. -/
  | usage
  | noDescription
  | unreadable (path : String)
  | invalidFile (path : String)
  | invalidArgument
  | layoutFailed (width height : Int)
  /-- The layout was abandoned. -/
  | fault (f : Fault)
  deriving DecidableEq, Repr

namespace Failure

def exitCode : Failure → Nat
  | .usage => 2
  | .fault _ => 101
  | _ => 1

/-- What is said about the failure. -/
def message : Failure → String
  | .usage => "error: the arguments are not understood"
  | .noDescription => "Error: expected a description file or --json"
  | .unreadable path => s!"Error: failed to read {path}"
  | .invalidFile path => s!"Error: invalid component description in {path}"
  | .invalidArgument => "Error: invalid --json description"
  | .layoutFailed width height => s!"Error: layout at {width}x{height} failed"
  | .fault f => f.message

end Failure

/-- The arguments as they are given. -/
structure Given where
  file : Option String := none
  json : Option String := none
  width : Option String := none
  height : Option String := none
  format : Option String := none
  events : Bool := false
  verbose : Bool := false
  deriving DecidableEq, Repr

namespace Given

/-- Take a value that must not have been given before. -/
def once (known : Option String) (value : String) : Except Failure (Option String) :=
  if known.isSome then .error .usage else .ok (some value)

def addFile (g : Given) (path : String) : Except Failure Given := do
  if path.isEmpty then throw .usage
  return { g with file := ← once g.file path }

def addFlag (g : Given) (name : String) : Except Failure Given :=
  match name with
  | "events" => if g.events then .error .usage else .ok { g with events := true }
  | "verbose" => if g.verbose then .error .usage else .ok { g with verbose := true }
  | _ => .error .usage

def isFlag (name : String) : Bool := name == "events" || name == "verbose"

def addValue (g : Given) (name value : String) : Except Failure Given := do
  match name with
  | "json" => return { g with json := ← once g.json value }
  | "width" => return { g with width := ← once g.width value }
  | "height" => return { g with height := ← once g.height value }
  | "format" => return { g with format := ← once g.format value }
  | _ => throw .usage

/-- Whether an argument begins an option, so that it is no value of the option before it. -/
def isOption (argument : String) : Bool :=
  match argument.toList with
  | '-' :: _ :: _ => true
  | _ => false

/-- An option's name and, after `=`, its value. -/
def splitOption (text : List Char) : String × Option String :=
  let name := String.ofList (text.takeWhile (· != '='))
  match text.dropWhile (· != '=') with
  | '=' :: value => (name, some (String.ofList value))
  | _ => (name, none)

/-- Take the arguments in turn. -/
def addAll (g : Given) : List String → Except Failure Given
  | [] => .ok g
  | argument :: rest =>
    match argument.toList with
    | ['-', '-'] => rest.foldlM addFile g
    | '-' :: '-' :: text =>
      match splitOption text with
      | (name, some value) => do addAll (← g.addValue name value) rest
      | (name, none) =>
        if isFlag name then do addAll (← g.addFlag name) rest
        else
          match rest with
          | [] => .error .usage
          | value :: rest =>
            if isOption value then .error .usage
            else do addAll (← g.addValue name value) rest
    | ['-', 'v'] => do addAll (← g.addFlag "verbose") rest
    | '-' :: _ :: _ => .error .usage
    | _ => do addAll (← g.addFile argument) rest

end Given

/-- Where the description comes from. -/
inductive Source where
  | file (path : String)
  | argument (text : String)
  deriving DecidableEq, Repr

structure Options where
  source : Option Source
  width : Int
  height : Int
  format : Format
  events : Bool
  deriving DecidableEq, Repr

/-- A length as an argument: decimal digits after an optional sign. -/
def readLength (text : String) : Except Failure Int :=
  let (negative, digits) := Text.sign text.toList
  let magnitude := (Text.naturalOf digits : Int)
  let n := if negative then -magnitude else magnitude
  if !digits.isEmpty && digits.all Char.isDigit && decide (Length.Fits n) then .ok n
  else .error .usage

def readFormat (text : String) : Except Failure Format :=
  match text with
  | "tree" => .ok .tree
  | "json" => .ok .json
  | _ => .error .usage

namespace Options

def ofGiven (g : Given) : Except Failure Options := do
  let source ← match g.file, g.json with
    | some _, some _ => throw .usage
    | some path, none => pure (some (Source.file path))
    | none, some text => pure (some (Source.argument text))
    | none, none => pure none
  return {
    source
    width := ← (g.width.map readLength).getD (.ok 800)
    height := ← (g.height.map readLength).getD (.ok 600)
    format := ← (g.format.map readFormat).getD (.ok .tree)
    events := g.events
  }

/-- What the arguments ask for. -/
def parse (arguments : List String) : Except Failure Options := do
  ofGiven (← Given.addAll {} arguments)

end Options

def describe (text : String) : Option Description := (Json.parse? text).bind Description.ofJson?

/-- The description, when `read` gives the text of a file. -/
def load (read : String → Option String) : Option Source → Except Failure Description
  | none => .error .noDescription
  | some (.argument text) => (describe text).elim (.error .invalidArgument) .ok
  | some (.file path) =>
    match read path with
    | none => .error (.unreadable path)
    | some text => (describe text).elim (.error (.invalidFile path)) .ok

/-- The text of a report about a scene that has been laid out. -/
def report (o : Options) (s : Scene) : String :=
  let layout := match o.format with
    | .tree =>
      let title := s!"=== Layout ({o.width}x{o.height}) ===\n"
      title :: Report.treeLines s s.tree.dirtyIds 0
    | .json => [(Report.document s.tree 0).pretty 0]
  let events := if o.events then "\n=== Events ===" :: Report.eventLines s else []
  String.join ((layout ++ events).map (· ++ "\n"))

/-- Lay out the description and report, when `read` gives the text of a file. -/
def execute (o : Options) (read : String → Option String) : Except Failure String := do
  let d ← load read o.source
  let host := { Host.standard with listens := true }
  let scene := Scene.ofTree (Tree.ofDescription d) host
  match scene.run (Step.layoutRoot 0 ⟨o.width, o.height⟩) with
  | .error f => throw (.fault f)
  | .ok (.error _, _) => throw (.layoutFailed o.width o.height)
  | .ok (.ok (), s) => return report o s

end Trellis.CommandLine
