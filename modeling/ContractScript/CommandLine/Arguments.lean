import ContractScript.CommandLine.Command

/-!
Reading the arguments of the command line. Flags may be given once, `verbose` any number of times;
`--quiet` and `--verbose` stand before or after the command, all else after it. `--` ends the flags
and options. The first argument that does not fit decides: values are looked at where they are
given, and a request for help or for the version counts only if all before it fits; it is answered
in place of the command. How often `verbose` is given says how much of the log is shown, where the
environment does not say it.
-/

namespace ContractScript.CommandLine

/-- What the arguments ask for. -/
inductive Request where
  /-- `verbosity` counts the flags that ask to see more of the log. -/
  | command (quiet : Bool) (verbosity : Nat) (c : Command)
  | shortVersion
  | help
  | misuse
deriving DecidableEq

/-- An option of a run, which is followed by a value. -/
inductive RunOption where
  | entryContract
  | entryMethod
  | maxCallDepth
deriving DecidableEq

namespace RunOption

def all : List RunOption := [entryContract, entryMethod, maxCallDepth]

def name : RunOption → String
  | entryContract => "entry-contract"
  | entryMethod => "entry-method"
  | maxCallDepth => "max-call-depth"

end RunOption

inductive Verb where
  | run
  | check
  | tokens
  | parse
  | hash
  | version
deriving DecidableEq

namespace Verb

def all : List Verb := [run, check, tokens, parse, hash, version]

def name : Verb → String
  | run => "run"
  | check => "check"
  | tokens => "tokens"
  | parse => "parse"
  | hash => "hash"
  | version => "version"

def ofName? (name : String) : Option Verb := all.find? fun verb => verb.name = name

/-- The flags of a command besides the common ones. -/
def flags : Verb → List String
  | run => ["lenient"]
  | check | tokens => ["json"]
  | _ => []

/-- The option of a command under a name. -/
def option? (verb : Verb) (name : String) : Option RunOption :=
  match verb with
  | run => RunOption.all.find? fun option => option.name = name
  | _ => none

/-- How many files a command takes. -/
def files : Verb → Nat
  | version => 0
  | _ => 1

end Verb

/-- The flags, options and files met so far. -/
structure Given where
  flags : List String := []
  verbosity : Nat := 0
  entryContract : Option String := none
  entryMethod : Option String := none
  maxCallDepth : Option Nat := none
  files : List String := []
  /-- The option whose value comes next. -/
  awaiting : Option RunOption := none
  /-- Whether `--` was met. -/
  separated : Bool := false

/-- One flag, option or file among the arguments; `stop` ends the reading with its answer. -/
inductive Step where
  | go (given : Given)
  | stop (request : Request)

/-- A limit on call depth: decimal digits, after a plus sign if there is one. -/
def depth? (text : String) : Option Nat :=
  let digits := match text.toList with
    | '+' :: rest => rest
    | cs => cs
  if Text.isDecimal digits then some (Text.decimalValue digits) |>.filter (· < Config.depthBound)
  else none

namespace Given

def flag (given : Given) (name : String) : Step :=
  if given.flags.contains name then .stop .misuse
  else .go { given with flags := name :: given.flags }

def moreVerbose (given : Given) : Given := { given with verbosity := given.verbosity + 1 }

/-- Takes the value of an option that was not given before. -/
def option (given : Given) (option : RunOption) (value : String) : Step :=
  match option, given.entryContract, given.entryMethod, given.maxCallDepth, depth? value with
  | .entryContract, none, _, _, _ =>
    .go { given with entryContract := some value, awaiting := none }
  | .entryMethod, _, none, _, _ => .go { given with entryMethod := some value, awaiting := none }
  | .maxCallDepth, _, _, none, some depth =>
    .go { given with maxCallDepth := some depth, awaiting := none }
  | _, _, _, _, _ => .stop .misuse

/-- Takes a file, which needs a name. -/
def file (given : Given) (verb : Verb) (name : String) : Step :=
  if name ≠ "" ∧ given.files.length < verb.files then
    .go { given with files := name :: given.files }
  else .stop .misuse

/-- The configuration that the flags and options of a run describe. -/
def config (given : Given) : Config :=
  let base : Config := {}
  { entryContract := given.entryContract.getD base.entryContract
    entryMethod := given.entryMethod.getD base.entryMethod
    mode := if given.flags.contains "lenient" then .lenient else .strict
    maxCallDepth := given.maxCallDepth.getD base.maxCallDepth }

/-- The command that the arguments make up once all of them are taken. -/
def command? (given : Given) (verb : Verb) : Option Command :=
  let json := given.flags.contains "json"
  match verb, given.awaiting, given.files with
  | _, some _, _ => none
  | .version, none, _ => some .version
  | _, none, [] => none
  | .run, none, file :: _ => some (.run file given.config)
  | .check, none, file :: _ => some (.check file json)
  | .tokens, none, file :: _ => some (.tokens file json)
  | .parse, none, file :: _ => some (.parse file)
  | .hash, none, file :: _ => some (.hash file)

end Given

/-- How an argument is written. -/
inductive Argument where
  /-- `--name` or `--name=value` -/
  | long (name : String) (value : Option String)
  /-- `-xyz`, several flags of one letter -/
  | short (letters : List Char)
  /-- `--` -/
  | separator
  | plain (text : String)
deriving DecidableEq

namespace Argument

def ofText (text : String) : Argument :=
  match text.toList with
  | ['-', '-'] => .separator
  | '-' :: '-' :: rest =>
    let name := rest.takeWhile (· != '=')
    match rest.dropWhile (· != '=') with
    | [] => .long (String.ofList name) none
    | _ :: value => .long (String.ofList name) (some (String.ofList value))
  | '-' :: c :: rest => .short (c :: rest)
  | _ => .plain text

end Argument

/-- The common flags by their letters. -/
def shortFlags (given : Given) (onVersion : Step) : List Char → Step
  | [] => .go given
  | 'q' :: rest =>
    match given.flag "quiet" with
    | .go given => shortFlags given onVersion rest
    | stop => stop
  | 'v' :: rest => shortFlags given.moreVerbose onVersion rest
  | 'h' :: _ => .stop .help
  | 'V' :: _ => onVersion
  | _ :: _ => .stop .misuse

/-- A common flag by its name, or what `otherwise` says. -/
def commonFlag (given : Given) (name : String) (value : Option String) (otherwise : Step) : Step :=
  match name, value with
  | "quiet", none => given.flag "quiet"
  | "verbose", none => .go given.moreVerbose
  | "help", none => .stop .help
  | _, _ => otherwise

/-- Takes one argument after the command. The value of an option must not look like a flag. -/
def Given.take (given : Given) (verb : Verb) (text : String) : Step :=
  if given.separated then given.file verb text
  else match given.awaiting, Argument.ofText text with
    | some option, .plain value => given.option option value
    | some _, _ => .stop .misuse
    | none, .separator => .go { given with separated := true }
    | none, .plain file => given.file verb file
    | none, .short letters => shortFlags given (.stop .misuse) letters
    | none, .long name value =>
      match verb.option? name, value with
      | some option, some value => given.option option value
      | some option, none => .go { given with awaiting := some option }
      | none, value =>
        if verb.flags.contains name ∧ value = none then given.flag name
        else commonFlag given name value (.stop .misuse)

/-- The arguments after the command, with what was given `before` it. A count of `verbose` after the
command takes the place of the one before it. -/
def afterVerb (before : Given) (verb : Verb) (given : Given) : List String → Request
  | [] =>
    match given.command? verb with
    | some c =>
      .command (before.flags.contains "quiet" || given.flags.contains "quiet")
        (if given.verbosity = 0 then before.verbosity else given.verbosity) c
    | none => .misuse
  | text :: rest =>
    match given.take verb text with
    | .go given => afterVerb before verb given rest
    | .stop request => request

/-- The arguments after `help`: nothing, or the one command that help is wanted for. -/
def helpTopic : List String → Request
  | [] => .help
  | [topic] => if topic = "help" ∨ (Verb.ofName? topic).isSome then .help else .misuse
  | _ => .misuse

/-- The arguments up to the command. -/
def beforeVerb (given : Given) : List String → Request
  | [] => .misuse
  | text :: rest =>
    match Verb.ofName? text with
    | some verb => afterVerb given verb {} rest
    | none =>
      match Argument.ofText text with
      | .plain word => if word = "help" then helpTopic rest else .misuse
      | .separator => .misuse
      | .short letters =>
        match shortFlags given (.stop .shortVersion) letters with
        | .go given => beforeVerb given rest
        | .stop request => request
      | .long "version" none => .shortVersion
      | .long name value =>
        match commonFlag given name value (.stop .misuse) with
        | .go given => beforeVerb given rest
        | .stop request => request

def Request.ofArguments (arguments : List String) : Request :=
  beforeVerb {} arguments

/-- How the program is called. -/
def usage : String :=
  joinLines
    ["Usage: turboswift [--quiet] [--verbose] COMMAND",
      "  run FILE [--entry-contract NAME] [--entry-method NAME] [--lenient] [--max-call-depth N]",
      "  check FILE [--json]",
      "  tokens FILE [--json]",
      "  parse FILE",
      "  hash FILE",
      "  version"]

/-- The answer to a request, with `read` for the files. -/
def Request.answer (read : String → Except ReadFailure String) : Request → Answer
  | command quiet _ c => c.answer read quiet
  | shortVersion => Answer.lines [CommandLine.shortVersion]
  | help => { output := usage.toUTF8.data }
  | misuse => { exitCode := 2, errors := usage }

/-- Which events are shown. A filter that the environment sets goes before the flags. -/
def Request.admits (environment : Option (Event → Bool)) : Request → Event → Bool
  | command _ verbosity _ => environment.getD (Event.upTo (.ofVerbosity verbosity))
  | _ => fun _ => false

end ContractScript.CommandLine
