import Stepwise.Record
import Stepwise.Text.WhiteSpace

/-!
# The command line

Arguments are read from left to right into a request; a request, with the
content of the file it names if it names one, has a result: an exit code and
what goes to the two output streams.  Reading the file and writing the streams
is all that is left to do outside.
-/

namespace Stepwise.CommandLine

/-! ## Arguments -/

/-- The options that can be given, each at most once. -/
structure Options where
  /-- The argument names a file that holds the input. -/
  file : Bool
  /-- Every step is printed, not only the last. -/
  steps : Bool
  /-- Reports and outcomes are printed as JSON. -/
  json : Bool
deriving DecidableEq, Repr

/-- What a command line asks for. -/
inductive Request where
  | evaluate (o : Options) (argument : String)
  | version
  | help
  /-- The arguments are not understood. -/
  | misuse
deriving DecidableEq, Repr

inductive Switch where
  | file
  | steps
  | json
  | version
  | help
deriving DecidableEq, Repr

namespace Switch

/-- The switch with this letter. -/
def ofLetter? (c : Char) : Option Switch :=
  if c = 'f' then some .file
  else if c = 's' then some .steps
  else if c = 'j' then some .json
  else if c = 'V' then some .version
  else if c = 'h' then some .help
  else none

def ofName? (name : String) : Option Switch :=
  if name = "file" then some .file
  else if name = "steps" then some .steps
  else if name = "json" then some .json
  else if name = "version" then some .version
  else if name = "help" then some .help
  else none

end Switch

/-- What has been read of the arguments: the options so far, and the one argument
that is no option, the input or the name of the file, if it has been given. -/
structure Given where
  options : Options
  argument : Option String
deriving DecidableEq, Repr

namespace Given

def nothing : Given := ⟨⟨false, false, false⟩, none⟩

/-- Turns a switch on.  One that is on already is misuse, and asking for the
version or for help settles the request at once. -/
def turnOn (g : Given) : Switch → Except Request Given
  | .file =>
      if g.options.file then .error .misuse
      else .ok { g with options := { g.options with file := true } }
  | .steps =>
      if g.options.steps then .error .misuse
      else .ok { g with options := { g.options with steps := true } }
  | .json =>
      if g.options.json then .error .misuse
      else .ok { g with options := { g.options with json := true } }
  | .version => .error .version
  | .help => .error .help

/-- Turns on the switch that was found, if one was. -/
def turnOn? (g : Given) : Option Switch → Except Request Given
  | some s => g.turnOn s
  | none => .error .misuse

/-- Takes an argument that is no option.  There can be only one. -/
def take (g : Given) (argument : String) : Except Request Given :=
  if g.argument.isSome then .error .misuse else .ok { g with argument := argument }

/-- Reads a command-line argument in front of a `--`.  A single `-` and the
empty text are no options. -/
def read (g : Given) (argument : String) : Except Request Given :=
  match argument.toList with
  | '-' :: '-' :: name => g.turnOn? (Switch.ofName? (.ofList name))
  | '-' :: c :: letters => (c :: letters).foldlM (fun g c => g.turnOn? (Switch.ofLetter? c)) g
  | _ => g.take argument

/-- Reads all arguments; a `--` ends the options. -/
def readAll (g : Given) : List String → Except Request Given
  | [] => .ok g
  | "--" :: rest => rest.foldlM take g
  | argument :: rest => do (← g.read argument).readAll rest

end Given

def Request.ofArguments (arguments : List String) : Request :=
  match Given.nothing.readAll arguments with
  | .error request => request
  | .ok g =>
      match g.argument with
      | some argument => .evaluate g.options argument
      | none => .misuse

/-- The file a request needs. -/
def Request.path? : Request → Option String
  | .evaluate o argument => if o.file then some argument else none
  | _ => none

/-! ## Results -/

/-- What a run leaves: the exit code and the two output streams. -/
structure Result where
  code : Nat
  output : String
  errors : String
deriving DecidableEq, Repr

def line (text : String) : String := text ++ "\n"

/-- A text filled up with blanks to at least `width` characters. -/
def padRight (width : Nat) (text : String) : String :=
  text ++ .ofList (List.replicate (width - text.length) ' ')

/-- What is printed for the outcome of a step, if anything is. -/
def outcomeText? (o : Options) (v : Evaluation) : Option String :=
  if o.json then
    if o.steps || v.complete then some v.toJson.toText else none
  else if o.steps then some (padRight 12 v.value.toText ++ " " ++ Token.render v.tokens)
  else if v.complete then some v.value.toText
  else none

/-- Takes steps and prints their outcomes, up to the one that completes the input or to a
failure. -/
def printSteps (o : Options) (s : Session) : Result :=
  match _h : s.next with
  | (.error failure, _) => ⟨1, "", line ("Evaluation error: " ++ failure.message)⟩
  | (.ok v, after) =>
      let printed := (outcomeText? o v).elim "" line
      if _hc : v.complete then ⟨0, printed, ""⟩
      else
        let result := printSteps o after
        { result with output := printed ++ result.output }
termination_by s.tokens.length
decreasing_by exact Session.length_tokens_next_lt _h (by simpa using _hc)

/-- The line printed for the report on an input, if one is. -/
def reportLine (o : Options) (report : Outcome) : String :=
  if o.json then line report.toJson.toText else ""

/-- The result for an input: the report, and the steps if it has been accepted. -/
def evaluate (o : Options) (input : String) : Result :=
  let (report, s) := Session.parse input
  if report.success then
    let result := printSteps o s
    { result with output := reportLine o report ++ result.output }
  else ⟨1, reportLine o report, line ("Parser error: " ++ report.message)⟩

/-- The input that a file holds: its text without white space at the ends.  A
file that is not UTF-8 holds none. -/
def inputOfFile? (content : ByteArray) : Option String :=
  (String.fromUTF8? content).map fun text => .ofList (Text.trim text.toList)

/-- The result for a file that cannot be read. -/
def unreadable (path : String) : Result :=
  ⟨1, "", line s!"Failed to read the input file '{path}'. Perhaps this file does not exist?"⟩

def versionText : String := "stepcalc 0.1.0"

/-- What is printed for help, and where arguments are not understood.  Only the options
and the exit codes are fixed; the wording is free. -/
def usageText : String :=
  "Usage: stepcalc [--file] [--steps] [--json] CONTENTS\n\n" ++
  "  -f, --file     read the expression from the file CONTENTS\n" ++
  "  -s, --steps    print every reduction step\n" ++
  "  -j, --json     print the parse outcome and the evaluations as JSON\n" ++
  "  -h, --help     print this text\n" ++
  "  -V, --version  print the version"

/-- The result of a request, given the content of the file it needs if it could
be read. -/
def Request.run (request : Request) (content : Option ByteArray) : Result :=
  match request with
  | .evaluate o argument =>
      if o.file then
        match content.bind inputOfFile? with
        | some input => CommandLine.evaluate o input
        | none => unreadable argument
      else CommandLine.evaluate o argument
  | .version => ⟨0, line versionText, ""⟩
  | .help => ⟨0, line usageText, ""⟩
  | .misuse => ⟨2, "", line usageText⟩

end Stepwise.CommandLine
