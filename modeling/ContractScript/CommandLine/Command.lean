import ContractScript.Grey
import ContractScript.Json.Writer
import ContractScript.Program.Canonical
import ContractScript.Program.Log
import ContractScript.Run

/-!
The commands of the command line and what they answer: an exit code, bytes for the output, what is
reported on the error stream, and the events for the log, which goes to the error stream as well. A
command reads at most one file; the text of that file, or the reason why it could not be read, is
all that a command depends on. Two things are left out: colours, and the events of a program that
has begun to run.
-/

namespace ContractScript.CommandLine

/-- Why a file could not be read as text. -/
inductive ReadFailure where
  | missing
  | directory
  | notDirectory
  | notText
  /-- Any other reason, as the system words it. -/
  | system (reason : String)
deriving DecidableEq

def ReadFailure.message : ReadFailure → String
  | missing => "No such file or directory (os error 2)"
  | directory => "Is a directory (os error 21)"
  | notDirectory => "Not a directory (os error 20)"
  | notText => "stream did not contain valid UTF-8"
  | system reason => reason

inductive Command where
  | run (file : String) (config : Config)
  | check (file : String) (json : Bool)
  | tokens (file : String) (json : Bool)
  | parse (file : String)
  | hash (file : String)
  | version
deriving DecidableEq

/-- What a command leaves behind. -/
structure Answer where
  exitCode : UInt8 := 0
  output : Array UInt8 := #[]
  /-- What the line checks and the reading of a program raise for the log. Everything that a program
  raises from the start of its run on is left out. -/
  log : List Event := []
  /-- What the command reports on the error stream, after all that it logs. -/
  errors : String := ""
deriving DecidableEq

/-- What the caller of a command sees. -/
structure Transcript where
  exitCode : UInt8
  output : Array UInt8
  errors : String
deriving DecidableEq

/-- Ends each line of a text with a line feed. -/
def joinLines (lines : List String) : String :=
  String.join (lines.map (· ++ "\n"))

namespace Answer

/-- Success, with lines on the output. -/
def lines (lines : List String) : Answer := { output := (joinLines lines).toUTF8.data }

/-- Failure, with a reason after the word `error`. -/
def failure (exitCode : UInt8) (reason : String) : Answer :=
  { exitCode, errors := joinLines [s!"error: {reason}"] }

def unreadable (file : String) (why : ReadFailure) : Answer :=
  failure 2 s!"cannot read '{file}': {why.message}"

/-- The failure of a command that only reads the program. -/
def malformed (e : Error) : Answer :=
  failure 1 s!"Parsing error: {e.message}"

/-- The answer as it is seen by the caller, unless a program has begun to run: its log would be
missing. -/
def transcript (admits : Event → Bool) (write : Nat → Event → String) (a : Answer) : Transcript :=
  ⟨a.exitCode, a.output, Event.lines admits write a.log ++ a.errors⟩

end Answer

def versionNumber : String := "0.1.0"

/-- The version of the command line alone. -/
def shortVersion : String := s!"turboswift {versionNumber}"

/-- The version of the command line and of the library under it. -/
def longVersion : String := s!"{shortVersion} (turboswift-core {versionNumber})"

def findingToJson (f : Finding) : Json :=
  .object [("kind", .string f.kind.name), ("line", .ofNat f.line), ("message", .string f.message)]

def findingsToJson (findings : List Finding) : Json :=
  .object [("clean", .bool findings.isEmpty), ("count", .ofNat findings.length),
    ("findings", .array (findings.map findingToJson))]

/-- The event of a source text that is not run because of its flaws. -/
def rejectedSource (findings : List Finding) : Event :=
  { level := .debug
    message := "turbalance rejected source"
    values := [("findings", toString findings.length)] }

/-- Runs a program with the `grey` toolkit. What it printed stays printed when it fails. -/
def run (config : Config) (source : String) : Answer :=
  match Machine.runSource config Grey.registry source (Machine.start .unlimited) with
  | .ok (.completed _) m => { output := m.sink.written, log := Program.eventsOfSource source }
  | .ok (.rejected findings) _ =>
    { exitCode := 1
      log := [rejectedSource findings]
      errors := joinLines (findings.map Finding.report ++ ["Fix errors before running."]) }
  | .error e m =>
    let answer := if e.isSyntax then Answer.malformed e else Answer.failure 1 e.message
    { answer with output := m.sink.written, log := Program.eventsOfSource source }

def check (json quiet : Bool) (source : String) : Answer :=
  let findings := Finding.check source
  let exitCode : UInt8 := if findings.isEmpty then 0 else 1
  if json then { Answer.lines [(findingsToJson findings).compact] with exitCode }
  else if findings.isEmpty then
    if quiet then {} else Answer.lines ["No syntax errors found."]
  else { exitCode, errors := joinLines (findings.map Finding.report) }

def tokens (json : Bool) (source : String) : Answer :=
  let tokens := Token.scan source
  if json then Answer.lines [(Json.array (tokens.map Token.toJson)).compact]
  else Answer.lines (tokens.map (·.text))

/-- Reads a program and answers with a line about it. -/
def describeProgram (describe : Program → String) (source : String) : Answer :=
  let answer := match Program.ofSource source with
    | .ok program => Answer.lines [describe program]
    | .error e => Answer.malformed e
  { answer with log := Program.eventsOfSource source }

namespace Command

/-- The file that a command reads. -/
def file? : Command → Option String
  | run file _ => some file
  | check file _ => some file
  | tokens file _ => some file
  | parse file => some file
  | hash file => some file
  | version => none

/-- The answer for a file that could be read. -/
def answerText (quiet : Bool) (source : String) : Command → Answer
  | run _ config => CommandLine.run config source
  | check _ json => CommandLine.check json quiet source
  | tokens _ json => CommandLine.tokens json source
  | parse _ => describeProgram (fun p => p.toJson.pretty) source
  | hash _ => describeProgram Program.fingerprint source
  | version => Answer.lines [longVersion]

/-- The answer of a command, with `read` for the files. -/
def answer (read : String → Except ReadFailure String) (quiet : Bool) (c : Command) : Answer :=
  match c.file? with
  | none => c.answerText quiet ""
  | some file =>
    match read file with
    | .ok source => c.answerText quiet source
    | .error why => Answer.unreadable file why

end Command

end ContractScript.CommandLine
