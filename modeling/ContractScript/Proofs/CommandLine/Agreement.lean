import ContractScript.CommandLine.Arguments
import ContractScript.Proofs.Program.Refusal

/-!
Five commands on one file. Each of them puts the stages together for itself: reading the file, the
line checks, reading the program, running it. Main statement: a stage that stops one command stops
the others in the same way, whatever options they are given. What they log is shown in front of what
they report; with a log to see, a run that the line checks stop says more than the checks do.
-/

namespace ContractScript

namespace Machine

variable {T : Toolkit}

theorem runSource_of_flawed {source : String} (flawed : Finding.check source ≠ [])
    (config : Config) (registry : Registry T) (m : Machine T) :
    runSource config registry source m = .ok (.rejected (Finding.check source)) m := by
  unfold runSource
  cases found : Finding.check source with
  | nil => exact absurd found flawed
  | cons finding more => rfl

/-- Nothing runs before the whole text is read. -/
theorem runSource_of_malformed {source : String} (clean : Finding.check source = []) {e : Error}
    (refused : Program.ofSource source = .error e) (config : Config) (registry : Registry T)
    (m : Machine T) : runSource config registry source m = .error e m := by
  unfold runSource
  rw [clean, refused]
  rfl

end Machine

namespace CommandLine

/-- What the command line answers to arguments, with `read` for the files. -/
def respond (read : String → Except ReadFailure String) (arguments : List String) : Answer :=
  (Request.ofArguments arguments).answer read

/-- The arguments are a call of the command, with `--quiet` or without, and with `--verbose` any
number of times. -/
def Asks (arguments : List String) (c : Command) : Prop :=
  ∃ quiet verbosity, Request.ofArguments arguments = .command quiet verbosity c

/-- Arguments for each command that reads a file, all with the same file and every one with options
of its own. -/
structure Calls (file : String) where
  check : List String
  parse : List String
  hash : List String
  tokens : List String
  run : List String
  /-- Whether the tokens are wanted in JSON. -/
  json : Bool
  config : Config
  asksCheck : Asks check (.check file false)
  asksParse : Asks parse (.parse file)
  asksHash : Asks hash (.hash file)
  asksTokens : Asks tokens (.tokens file json)
  asksRun : Asks run (.run file config)

def Calls.all {file : String} (calls : Calls file) : List (List String) :=
  [calls.check, calls.parse, calls.hash, calls.tokens, calls.run]

variable {file source : String} {read : String → Except ReadFailure String}

theorem joinLines_concat (lines : List String) (last : String) :
    joinLines (lines ++ [last]) = joinLines lines ++ (last ++ "\n") := by
  simp [joinLines]

/-! ### One command -/

theorem Command.answer_of_error {c : Command} (reads : c.file? = some file) {why : ReadFailure}
    (failed : read file = .error why) (quiet : Bool) :
    c.answer read quiet = Answer.unreadable file why := by
  simp only [answer, reads, failed]

theorem Command.answer_of_ok {c : Command} (reads : c.file? = some file)
    (readable : read file = .ok source) (quiet : Bool) :
    c.answer read quiet = c.answerText quiet source := by
  simp only [answer, reads, readable]

theorem Asks.respond_of_error {arguments : List String} {c : Command} (asks : Asks arguments c)
    (reads : c.file? = some file) {why : ReadFailure} (failed : read file = .error why) :
    respond read arguments = Answer.unreadable file why := by
  obtain ⟨quiet, verbosity, request⟩ := asks
  rw [respond, request]
  exact Command.answer_of_error reads failed quiet

theorem Asks.respond_of_ok {arguments : List String} {c : Command} (asks : Asks arguments c)
    (reads : c.file? = some file) (readable : read file = .ok source) :
    ∃ quiet, respond read arguments = c.answerText quiet source := by
  obtain ⟨quiet, verbosity, request⟩ := asks
  refine ⟨quiet, ?_⟩
  rw [respond, request]
  exact Command.answer_of_ok reads readable quiet

theorem check_of_clean (clean : Finding.check source = []) (quiet : Bool) :
    (check false quiet source).exitCode = 0 := by
  cases quiet <;> simp [check, clean, Answer.lines]

theorem check_of_flawed (flawed : Finding.check source ≠ []) (quiet : Bool) :
    check false quiet source =
      { exitCode := 1, errors := joinLines ((Finding.check source).map Finding.report) } := by
  simp [check, flawed]

theorem describeProgram_of_error {e : Error} (refused : Program.ofSource source = .error e)
    (describe : Program → String) :
    describeProgram describe source =
      { Answer.malformed e with log := Program.eventsOfSource source } := by
  simp only [describeProgram, refused]

theorem describeProgram_of_ok {program : Program} (accepted : Program.ofSource source = .ok program)
    (describe : Program → String) :
    describeProgram describe source =
      { Answer.lines [describe program] with log := Program.eventsOfSource source } := by
  simp only [describeProgram, accepted]

theorem run_of_flawed (flawed : Finding.check source ≠ []) (config : Config) :
    run config source =
      { exitCode := 1
        log := [rejectedSource (Finding.check source)]
        errors := joinLines ((Finding.check source).map Finding.report ++
          ["Fix errors before running."]) } := by
  simp only [run, Machine.runSource_of_flawed flawed]

theorem run_of_malformed (clean : Finding.check source = []) {e : Error}
    (refused : Program.ofSource source = .error e) (config : Config) :
    run config source = { Answer.malformed e with log := Program.eventsOfSource source } := by
  obtain ⟨index, wanted, found, rfl⟩ := Program.ofTokens_error refused
  simp only [run, Machine.runSource_of_malformed clean refused]
  rfl

theorem run_exitCode_ne (config : Config) (source : String) : (run config source).exitCode ≠ 2 := by
  have success : (0 : UInt8) ≠ 2 := by decide
  have failure : (1 : UInt8) ≠ 2 := by decide
  unfold run
  split
  · exact success
  · exact failure
  · split <;> exact failure

theorem describeProgram_exitCode_ne (describe : Program → String) (source : String) :
    (describeProgram describe source).exitCode ≠ 2 := by
  cases read : Program.ofSource source with
  | ok program =>
    rw [describeProgram_of_ok read]
    exact (by decide : (0 : UInt8) ≠ 2)
  | error e =>
    rw [describeProgram_of_error read]
    exact (by decide : (1 : UInt8) ≠ 2)

/-! ### All commands on a file -/

namespace Calls

variable (calls : Calls file)

theorem respond_unreadable {why : ReadFailure} (failed : read file = .error why) :
    ∀ arguments ∈ calls.all, respond read arguments = Answer.unreadable file why := by
  simp only [all, List.forall_mem_cons]
  exact ⟨calls.asksCheck.respond_of_error rfl failed, calls.asksParse.respond_of_error rfl failed,
    calls.asksHash.respond_of_error rfl failed, calls.asksTokens.respond_of_error rfl failed,
    calls.asksRun.respond_of_error rfl failed, fun _ member => nomatch member⟩

theorem respond_check (readable : read file = .ok source) :
    ∃ quiet, respond read calls.check = CommandLine.check false quiet source :=
  calls.asksCheck.respond_of_ok rfl readable

theorem respond_parse (readable : read file = .ok source) :
    respond read calls.parse = describeProgram (fun p => p.toJson.pretty) source := by
  obtain ⟨_, answered⟩ := calls.asksParse.respond_of_ok rfl readable
  exact answered

theorem respond_hash (readable : read file = .ok source) :
    respond read calls.hash = describeProgram Program.fingerprint source := by
  obtain ⟨_, answered⟩ := calls.asksHash.respond_of_ok rfl readable
  exact answered

theorem respond_tokens (readable : read file = .ok source) :
    respond read calls.tokens = CommandLine.tokens calls.json source := by
  obtain ⟨_, answered⟩ := calls.asksTokens.respond_of_ok rfl readable
  exact answered

theorem respond_run (readable : read file = .ok source) :
    respond read calls.run = CommandLine.run calls.config source := by
  obtain ⟨_, answered⟩ := calls.asksRun.respond_of_ok rfl readable
  exact answered

theorem exitCode_ne_of_readable (readable : read file = .ok source) :
    ∀ arguments ∈ calls.all, (respond read arguments).exitCode ≠ 2 := by
  have success : (0 : UInt8) ≠ 2 := by decide
  have failure : (1 : UInt8) ≠ 2 := by decide
  obtain ⟨quiet, checked⟩ := calls.respond_check readable
  have check : (respond read calls.check).exitCode ≠ 2 := by
    rw [checked]
    by_cases clean : Finding.check source = []
    · rw [check_of_clean clean]
      exact success
    · rw [check_of_flawed clean]
      exact failure
  have tokens : (respond read calls.tokens).exitCode ≠ 2 := by
    rw [calls.respond_tokens readable, CommandLine.tokens]
    split <;> exact success
  have parse := calls.respond_parse readable ▸ describeProgram_exitCode_ne _ source
  have hash := calls.respond_hash readable ▸ describeProgram_exitCode_ne _ source
  have run := calls.respond_run readable ▸ run_exitCode_ne calls.config source
  simp only [all, List.forall_mem_cons]
  exact ⟨check, parse, hash, tokens, run, fun _ member => nomatch member⟩

theorem flawed_of_check (readable : read file = .ok source)
    (stopped : (respond read calls.check).exitCode = 1) : Finding.check source ≠ [] := by
  intro clean
  obtain ⟨quiet, checked⟩ := calls.respond_check readable
  rw [checked, check_of_clean clean] at stopped
  exact absurd stopped (by decide)

theorem clean_of_check (readable : read file = .ok source)
    (passed : (respond read calls.check).exitCode = 0) : Finding.check source = [] := by
  refine Classical.byContradiction fun flawed => ?_
  obtain ⟨quiet, checked⟩ := calls.respond_check readable
  rw [checked, check_of_flawed flawed] at passed
  have differ : (1 : UInt8) ≠ 0 := by decide
  exact differ passed

theorem refused_of_parse (readable : read file = .ok source)
    (stopped : (respond read calls.parse).exitCode = 1) :
    ∃ e, Program.ofSource source = .error e := by
  cases accepted : Program.ofSource source with
  | error e => exact ⟨e, rfl⟩
  | ok program =>
    rw [calls.respond_parse readable, describeProgram_of_ok accepted] at stopped
    have differ : (0 : UInt8) ≠ 1 := by decide
    exact absurd stopped differ

theorem readable_of_exitCode {arguments : List String} (among : arguments ∈ calls.all)
    (passed : (respond read arguments).exitCode ≠ 2) : ∃ source, read file = .ok source := by
  cases found : read file with
  | ok source => exact ⟨source, rfl⟩
  | error why =>
    rw [calls.respond_unreadable found arguments among] at passed
    exact absurd rfl passed

end Calls

/-! ### What is seen of them -/

/-- What the calls find around them. -/
structure Setting where
  /-- The texts of the files. -/
  read : String → Except ReadFailure String
  /-- The filter that the environment sets for the log, if it sets one. -/
  filter : Option (Event → Bool)
  /-- The lines that a call writes for its log. -/
  write : List String → Nat → Event → String

namespace Setting

variable (s : Setting) (arguments : List String)

/-- Which events a call shows. -/
def admits : Event → Bool := (Request.ofArguments arguments).admits s.filter

/-- What a call shows of the events that it raises. -/
def logged (events : List Event) : String :=
  Event.lines (s.admits arguments) (s.write arguments) events

/-- What is seen of a call. -/
def see : Transcript :=
  (respond s.read arguments).transcript (s.admits arguments) (s.write arguments)

/-- The call shows no event of level `debug`. -/
def Silent : Prop := ∀ e : Event, e.level = .debug → s.admits arguments e = false

variable {s arguments}

theorem silent_of_off (off : s.filter = some fun _ => false) : s.Silent arguments := by
  intro e _
  unfold admits
  cases Request.ofArguments arguments <;> simp [Request.admits, off]

theorem silent_of_verbosity_le {quiet : Bool} {verbosity : Nat} {c : Command}
    (request : Request.ofArguments arguments = .command quiet verbosity c)
    (unset : s.filter = none) (few : verbosity ≤ 1) : s.Silent arguments := by
  intro e level
  rw [admits, request, Request.admits, unset, Option.getD_none, Event.upTo, level]
  match verbosity with
  | 0 | 1 => rfl

theorem logged_of_silent (silent : s.Silent arguments) {events : List Event}
    (level : ∀ e ∈ events, e.level = .debug) : s.logged arguments events = "" :=
  Event.lines_of_hidden (fun e among => silent e (level e among)) _

variable (s) (calls : Calls file)

theorem see_of_unreadable {why : ReadFailure} (failed : s.read file = .error why) :
    ∀ arguments ∈ calls.all, s.see arguments = ⟨2, #[], (Answer.unreadable file why).errors⟩ := by
  intro arguments among
  rw [see, calls.respond_unreadable failed arguments among]
  rfl

/-- What the line checks refuse is not run; a run logs that, and then reports what they do. -/
theorem see_run_of_check (stopped : (s.see calls.check).exitCode = 1) :
    ∃ source, s.read file = .ok source ∧ s.see calls.run =
      { exitCode := 1
        output := #[]
        errors := s.logged calls.run [rejectedSource (Finding.check source)] ++
          ((s.see calls.check).errors ++ "Fix errors before running.\n") } := by
  replace stopped : (respond s.read calls.check).exitCode = 1 := stopped
  obtain ⟨source, readable⟩ :=
    calls.readable_of_exitCode List.mem_cons_self (by rw [stopped]; decide)
  have flawed := calls.flawed_of_check readable stopped
  obtain ⟨quiet, checked⟩ := calls.respond_check readable
  have reported : (s.see calls.check).errors =
      joinLines ((Finding.check source).map Finding.report) := by
    rw [see, checked, check_of_flawed flawed]
    exact String.empty_append
  refine ⟨source, readable, ?_⟩
  rw [reported, see, calls.respond_run readable, run_of_flawed flawed, joinLines_concat]
  rfl

/-- What the grammar refuses fails alike wherever a program is wanted, with the same events for the
log. -/
theorem see_of_parse (passed : (s.see calls.check).exitCode = 0)
    (stopped : (s.see calls.parse).exitCode = 1) :
    ∃ source errors, s.read file = .ok source ∧
      ∀ arguments ∈ [calls.parse, calls.hash, calls.run], s.see arguments =
        ⟨1, #[], s.logged arguments (Program.eventsOfSource source) ++ errors⟩ := by
  replace passed : (respond s.read calls.check).exitCode = 0 := passed
  obtain ⟨source, readable⟩ :=
    calls.readable_of_exitCode List.mem_cons_self (by rw [passed]; decide)
  have clean := calls.clean_of_check readable passed
  obtain ⟨e, refused⟩ := calls.refused_of_parse readable stopped
  refine ⟨source, (Answer.malformed e).errors, readable, ?_⟩
  have alike {arguments : List String}
      (answered : respond s.read arguments =
        { Answer.malformed e with log := Program.eventsOfSource source }) :
      s.see arguments = ⟨1, #[], s.logged arguments (Program.eventsOfSource source) ++
        (Answer.malformed e).errors⟩ := by
    rw [see, answered]
    rfl
  simp only [List.forall_mem_cons]
  refine ⟨alike ?_, alike ?_, alike ?_, fun _ member => nomatch member⟩
  · rw [calls.respond_parse readable, describeProgram_of_error refused]
  · rw [calls.respond_hash readable, describeProgram_of_error refused]
  · rw [calls.respond_run readable, run_of_malformed clean refused]

theorem see_parse_iff_hash :
    (s.see calls.parse).exitCode = 0 ↔ (s.see calls.hash).exitCode = 0 := by
  change (respond s.read calls.parse).exitCode = 0 ↔ (respond s.read calls.hash).exitCode = 0
  cases found : s.read file with
  | error why =>
    have alike := calls.respond_unreadable found
    rw [alike calls.parse (by simp [Calls.all]), alike calls.hash (by simp [Calls.all])]
  | ok source =>
    rw [calls.respond_parse found, calls.respond_hash found]
    cases accepted : Program.ofSource source with
    | error e => rw [describeProgram_of_error accepted, describeProgram_of_error accepted]
    | ok program =>
      rw [describeProgram_of_ok accepted, describeProgram_of_ok accepted]
      exact Iff.rfl

end Setting

/-- The commands agree on a file. They fail alike where it cannot be read and nowhere else; what the
line checks refuse is not run and reported in the same words; what they let pass and the grammar
refuses fails alike in all commands that need a program. In front of the report stand the events
that a call shows, one for the refusal by the line checks and the same ones for every reading of the
program; calls that show no such events report alike to the letter. -/
theorem commands_agree (calls : Calls file) (s : Setting) :
    (∀ why, s.read file = .error why →
      ∃ errors, ∀ arguments ∈ calls.all, s.see arguments = ⟨2, #[], errors⟩) ∧
    (∀ source, s.read file = .ok source →
      ∀ arguments ∈ calls.all, (s.see arguments).exitCode ≠ 2) ∧
    ((s.see calls.check).exitCode = 1 →
      ∃ source, s.read file = .ok source ∧ s.see calls.run =
        { exitCode := 1
          output := #[]
          errors := s.logged calls.run [rejectedSource (Finding.check source)] ++
            ((s.see calls.check).errors ++ "Fix errors before running.\n") }) ∧
    ((s.see calls.check).exitCode = 0 → (s.see calls.parse).exitCode = 1 →
      ∃ source errors, s.read file = .ok source ∧
        ∀ arguments ∈ [calls.parse, calls.hash, calls.run], s.see arguments =
          ⟨1, #[], s.logged arguments (Program.eventsOfSource source) ++ errors⟩) ∧
    ((s.see calls.parse).exitCode = 0 ↔ (s.see calls.hash).exitCode = 0) ∧
    (s.Silent calls.run → (s.see calls.check).exitCode = 1 →
      s.see calls.run = ⟨1, #[], (s.see calls.check).errors ++ "Fix errors before running.\n"⟩) ∧
    ((∀ arguments ∈ [calls.parse, calls.hash, calls.run], s.Silent arguments) →
      (s.see calls.check).exitCode = 0 → (s.see calls.parse).exitCode = 1 →
      ∃ errors, ∀ arguments ∈ [calls.parse, calls.hash, calls.run],
        s.see arguments = ⟨1, #[], errors⟩) := by
  refine ⟨fun why failed => ⟨_, s.see_of_unreadable calls failed⟩,
    fun source readable => calls.exitCode_ne_of_readable readable, s.see_run_of_check calls,
    s.see_of_parse calls, s.see_parse_iff_hash calls,
    fun silent stopped => ?_, fun silent passed stopped => ?_⟩
  · obtain ⟨source, -, seen⟩ := s.see_run_of_check calls stopped
    have level : ∀ e ∈ [rejectedSource (Finding.check source)], e.level = .debug := by
      simp [rejectedSource]
    rw [seen, Setting.logged_of_silent silent level, String.empty_append]
  · obtain ⟨source, errors, -, seen⟩ := s.see_of_parse calls passed stopped
    have level := Program.level_of_mem_eventsOfSource source
    refine ⟨errors, fun arguments among => ?_⟩
    rw [seen arguments among, Setting.logged_of_silent (silent arguments among) level,
      String.empty_append]

/-- Calls with flags and options in several places. -/
def variedCalls : Calls "app.tsw" where
  check := ["check", "app.tsw"]
  parse := ["-vv", "parse", "app.tsw"]
  hash := ["hash", "--", "app.tsw"]
  tokens := ["tokens", "app.tsw", "--json"]
  run := ["--quiet", "run", "--entry-method", "start", "app.tsw", "--lenient", "-vvv",
    "--max-call-depth=7"]
  json := true
  config := { entryMethod := "start", mode := .lenient, maxCallDepth := 7 }
  asksCheck := ⟨false, 0, by decide +kernel⟩
  asksParse := ⟨false, 2, by decide +kernel⟩
  asksHash := ⟨false, 0, by decide +kernel⟩
  asksTokens := ⟨false, 0, by decide +kernel⟩
  asksRun := ⟨true, 3, by decide +kernel⟩

/-- A setting in which all files are alike and no time passes. -/
def still (contents : Except ReadFailure String) (filter : Option (Event → Bool)) : Setting where
  read := fun _ => contents
  filter := filter
  write := fun _ _ => Event.line "1970-01-01T00:00:00.000000Z"

/-- A text that the line checks refuse. -/
def strayBrace : String := "\x7d"

/-- A text that only the grammar refuses, after a contract. -/
def unfinished : String := "contract A \x7b \x7d contract"

/-- Both texts are asked for with the log that the flags want, and with the log switched off. -/
theorem commands_agree_varied :
    (∃ errors, ∀ arguments ∈ variedCalls.all,
      (still (.error .directory) none).see arguments = ⟨2, #[], errors⟩) ∧
    (∀ arguments ∈ variedCalls.all, ((still (.ok strayBrace) none).see arguments).exitCode ≠ 2) ∧
    (still (.ok strayBrace) none).see variedCalls.run =
      { exitCode := 1
        output := #[]
        errors := "1970-01-01T00:00:00.000000Z DEBUG turbalance rejected source findings=1\n" ++
          (((still (.ok strayBrace) none).see variedCalls.check).errors ++
            "Fix errors before running.\n") } ∧
    (still (.ok strayBrace) (some fun _ => false)).see variedCalls.run =
      { exitCode := 1
        output := #[]
        errors := ((still (.ok strayBrace) (some fun _ => false)).see variedCalls.check).errors ++
          "Fix errors before running.\n" } ∧
    (∃ errors,
      (still (.ok unfinished) none).see variedCalls.parse =
        { exitCode := 1
          output := #[]
          errors := "1970-01-01T00:00:00.000000Z DEBUG parsed contract " ++
            "contract=A vars=0 methods=0\n" ++ errors } ∧
      (still (.ok unfinished) none).see variedCalls.hash = ⟨1, #[], errors⟩) ∧
    ∃ errors, ∀ arguments ∈ [variedCalls.parse, variedCalls.hash, variedCalls.run],
      (still (.ok unfinished) (some fun _ => false)).see arguments = ⟨1, #[], errors⟩ := by
  have stopped (filter : Option (Event → Bool)) :
      ((still (.ok strayBrace) filter).see variedCalls.check).exitCode = 1 :=
    (by decide +kernel : (respond (fun _ => .ok strayBrace) variedCalls.check).exitCode = 1)
  have passed (filter : Option (Event → Bool)) :
      ((still (.ok unfinished) filter).see variedCalls.check).exitCode = 0 :=
    (by decide +kernel : (respond (fun _ => .ok unfinished) variedCalls.check).exitCode = 0)
  have refused (filter : Option (Event → Bool)) :
      ((still (.ok unfinished) filter).see variedCalls.parse).exitCode = 1 :=
    (by decide +kernel : (respond (fun _ => .ok unfinished) variedCalls.parse).exitCode = 1)
  have off (contents : Except ReadFailure String) (arguments : List String) :
      (still contents (some fun _ => false)).Silent arguments :=
    Setting.silent_of_off rfl
  refine ⟨(commands_agree variedCalls _).1 .directory rfl,
    (commands_agree variedCalls (still (.ok strayBrace) none)).2.1 strayBrace rfl, ?_,
    (commands_agree variedCalls _).2.2.2.2.2.1 (off _ _) (stopped _), ?_,
    (commands_agree variedCalls _).2.2.2.2.2.2 (fun _ _ => off _ _) (passed _) (refused _)⟩
  · obtain ⟨source, readable, seen⟩ := (commands_agree variedCalls _).2.2.1 (stopped none)
    cases readable
    have logged : (still (.ok strayBrace) none).logged variedCalls.run
        [rejectedSource (Finding.check strayBrace)] =
          "1970-01-01T00:00:00.000000Z DEBUG turbalance rejected source findings=1\n" := by
      decide +kernel
    rw [seen, logged]
  · obtain ⟨source, errors, readable, seen⟩ :=
      (commands_agree variedCalls _).2.2.2.1 (passed none) (refused none)
    cases readable
    have logged : (still (.ok unfinished) none).logged variedCalls.parse
        (Program.eventsOfSource unfinished) =
          "1970-01-01T00:00:00.000000Z DEBUG parsed contract " ++
            "contract=A vars=0 methods=0\n" := by
      decide +kernel
    have request : Request.ofArguments variedCalls.hash = .command false 0 (.hash "app.tsw") := by
      decide +kernel
    have silent : (still (.ok unfinished) none).Silent variedCalls.hash :=
      Setting.silent_of_verbosity_le request rfl (by decide)
    refine ⟨errors, ?_, ?_⟩
    · rw [seen _ (by decide), logged]
    · have hidden := Setting.logged_of_silent silent
        (Program.level_of_mem_eventsOfSource unfinished)
      rw [seen _ (by decide), hidden, String.empty_append]

/-- With its log shown a run that the line checks stop reports more than they do, and a request for
the version is answered in place of the command that stands beside it. -/
theorem commands_differ_verbose_or_versioned :
    ((still (.ok strayBrace) none).see ["check", "app.tsw"]).exitCode = 1 ∧
    (still (.ok strayBrace) none).see ["run", "-vv", "app.tsw"] =
      { exitCode := 1
        output := #[]
        errors := "1970-01-01T00:00:00.000000Z DEBUG turbalance rejected source findings=1\n" ++
          "[TURBALANCE] Line 1: Extra '\x7d'\n" ++ "Fix errors before running.\n" } ∧
    ((still (.ok strayBrace) none).see ["run", "-vv", "app.tsw"]).errors ≠
      ((still (.ok strayBrace) none).see ["check", "app.tsw"]).errors ++
        "Fix errors before running.\n" ∧
    ((still (.error .missing) none).see ["check", "missing.tsw"]).exitCode = 2 ∧
    (still (.error .missing) none).see ["--version", "check", "missing.tsw"] =
      { exitCode := 0, output := "turboswift 0.1.0\n".toUTF8.data, errors := "" } := by
  decide +kernel

end CommandLine

end ContractScript
