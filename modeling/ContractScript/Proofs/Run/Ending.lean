import ContractScript.Proofs.Grey.Handle
import ContractScript.Proofs.Machine.Depth
import ContractScript.Proofs.Machine.Frame
import ContractScript.Proofs.Program.Refusal
import ContractScript.Proofs.Run.Isolation
import ContractScript.Proofs.Statement.Errors

/-!
How runs end. Nothing but the entry method is ever executed, so what can go wrong is known stage by
stage: the tokens, the entry, the depth limit and the body before anything is written, and single
statements after that. Main statement: which errors a run of a source text can end in, and what it
has counted when it returns.
-/

namespace ContractScript

open ContractScript.Action

variable {T : Toolkit}

namespace Registry

/-- Classes and host objects fail with errors of their own only. -/
structure FailsAsHost (registry : Registry T) : Prop where
  construct : ∀ cls e, registry.Offers cls → T.construct cls = .error e → ∃ reason, e = .host reason
  set : ∀ handle given render name value e, registry.Hosts handle given →
    (T.set render handle name value).1 = .error e → ∃ reason, e = .host reason
  invoke : ∀ handle given render name args e, registry.Hosts handle given →
    (T.invoke render handle name args).1 = .error e → ∃ reason, e = .host reason

end Registry

namespace Error

/-- What only the call of a method may report. -/
def ofCall : Error → Bool
  | noMethod .. | callDepth _ => true
  | _ => false

theorem of_ofStatement {e : Error} (plain : e.ofStatement = true) :
    e.isSyntax = false ∧ e.ofCall = false := by
  cases e with
  | unexpected => cases plain
  | unrecognized => cases plain
  | integerRange => cases plain
  | noMethod => cases plain
  | callDepth => cases plain
  | _ => exact ⟨rfl, rfl⟩

end Error

namespace Machine

open Heap (Tame)

variable {registry : Registry T} {contract : Contract} {spaces : List (Object T)} {m : Machine T}

/-! ### Counts -/

theorem leaves_step_executed (tame : Tame registry contract spaces m.heap)
    (execute : ObjectId → Method → List (Value T.Class) → Action T Unit) (statement : Statement) :
    (leaves (step execute 0 statement) m).executed = m.executed + 1 := by
  cases step_effect tame execute statement with
  | refused _ stays => simp only [leaves, stays, begun]
  | constructs _ _ _ _ stores => simp only [leaves_of_ok stores, begun]
  | assigns _ stores => simp only [leaves_of_ok stores, begun]
  | prints writes =>
    rw [leaves_congr writes, leaves_printLine]
    rfl
  | asks _ _ _ _ _ answers =>
    rw [leaves_congr answers, leaves_bind_pure, callHost_onlyObjects]
    rfl

theorem steps_executed (tame : Tame registry contract spaces m.heap)
    (execute : ObjectId → Method → List (Value T.Class) → Action T Unit)
    {statements : List Statement} {after : Machine T}
    (ran : steps execute 0 statements m = .ok () after) :
    after.executed = m.executed + statements.length := by
  induction statements generalizing m with
  | nil =>
    cases ran
    rfl
  | cons statement rest ih =>
    have once := leaves_step_executed tame execute statement
    have kept := step_tame tame execute statement
    obtain ⟨_, here, first, ranRest⟩ := bind_eq_ok ran
    rw [leaves_of_ok first] at once kept
    rw [ih kept ranRest, once, List.length_cons]
    omega

/-! ### Errors of statements -/

theorem callHost_error (fails : registry.FailsAsHost) {callee : ObjectId} {handle : T.Handle}
    {given : List (Value T.Class)} (found : m.heap.lookup callee = .hosted handle ∅)
    (hosts : registry.Hosts handle given) {method : String} {args : List (Value T.Class)}
    {e : Error} {after : Machine T} (failed : callHost callee method args m = .error e after) :
    e.ofStatement = true := by
  have refused : (Object.callHost (m.heap.renderExcept callee) method args
      (.hosted handle ∅)).1 = .error e := by
    simp only [callHost, update, found] at failed
    split at failed
    · cases failed
    · next ran =>
      cases failed
      exact ran
  rcases callHost_eq_error refused with ⟨_, stopped⟩ | stopped | rfl
  · obtain ⟨reason, rfl⟩ := fails.set _ _ _ _ _ _ hosts stopped
    rfl
  · obtain ⟨reason, rfl⟩ := fails.invoke _ _ _ _ _ _ hosts stopped
    rfl
  · rfl

theorem step_error (fails : registry.FailsAsHost) (tame : Tame registry contract spaces m.heap)
    {execute : ObjectId → Method → List (Value T.Class) → Action T Unit} {statement : Statement}
    {e : Error} {after : Machine T} (failed : step execute 0 statement m = .error e after) :
    e.ofStatement = true := by
  have effect := step_effect tame execute statement
  rw [failed] at effect
  cases effect with
  | refused reason stays =>
    cases stays
    rcases reason with known | ⟨cls, offers, refused⟩
    · exact known
    · obtain ⟨reason, rfl⟩ := fails.construct cls _ offers refused
      rfl
  | constructs _ _ _ _ stores => cases stores
  | assigns _ stores => cases stores
  | prints writes =>
    simp only [printLine] at writes
    split at writes <;> cases writes
    rfl
  | asks names beyond found hosts plain answers =>
    rcases bind_eq_error answers.symm with refused | ⟨_, _, _, impossible⟩
    · exact callHost_error fails found hosts refused
    · cases impossible

theorem steps_error (fails : registry.FailsAsHost) (tame : Tame registry contract spaces m.heap)
    {execute : ObjectId → Method → List (Value T.Class) → Action T Unit}
    {statements : List Statement} {e : Error} {after : Machine T}
    (failed : steps execute 0 statements m = .error e after) : e.ofStatement = true := by
  induction statements generalizing m with
  | nil => cases failed
  | cons statement rest ih =>
    have kept := step_tame tame execute statement
    rcases bind_eq_error failed with refused | ⟨_, there, ran, stuck⟩
    · exact step_error fails tame refused
    · rw [leaves_of_ok ran] at kept
      exact ih kept stuck

/-! ### Runs -/

/-- A machine of a run that has written and executed nothing. -/
structure Ready (registry : Registry T) (contract : Contract) (sink : Sink) (m : Machine T) :
    Prop where
  sink : m.sink = sink
  depth : m.depth = 0
  executed : m.executed = 0
  tame : Tame registry contract (registry.spaces contract.imports.entries) m.heap

variable (registry) in
theorem exists_ready {config : Config} {program : Program} {method : Method}
    (entry : program.entry config = .ok (contract, method)) (sink : Sink) :
    ∃ ready, Ready registry contract sink ready ∧
      bindImports registry 0 contract.imports.entries
        ((start sink : Machine T).instantiate contract) = .ok () ready ∧
      runProgram config registry program (start sink) =
        (executeWithin config config.maxCallDepth 0 method [] >>= fun _ => pure 0) ready := by
  obtain ⟨ready, bound, kept, ran⟩ := runProgram_apply registry entry sink
  have only := bindImports_onlyObjects registry 0 contract.imports.entries
    ((start sink).instantiate contract)
  rw [leaves_of_ok bound] at only
  have depth : ready.depth = 0 := by
    rw [only]
    rfl
  refine ⟨ready, ⟨?_, depth, ?_, kept⟩, bound, ?_⟩
  · rw [only]
    rfl
  · rw [only]
    rfl
  · rw [ran, depth, Nat.sub_zero]

/-- A run of a program comes to the statements of its entry method in the machine `inside`, where its
imports and parameters are bound, and all that it does from there are these statements. -/
structure Enters (config : Config) (registry : Registry T) (program : Program) (sink : Sink)
    (contract : Contract) (method : Method) (statements : List Statement) (inside : Machine T) :
    Prop where
  entry : program.entry config = .ok (contract, method)
  room : 0 < config.maxCallDepth
  reads : method.compile config.mode = .ok statements
  binds : (bindImports registry 0 contract.imports.entries >>= fun _ =>
    bindParams 0 method.params []) ((start sink).instantiate contract) = .ok () inside
  ready : Ready registry contract sink inside
  run : runProgram config registry program (start sink) =
    (nested (steps (executeWithin config (config.maxCallDepth - 1)) 0 statements) >>=
      fun _ => pure 0) inside

namespace Enters

variable {config : Config} {program : Program} {sink : Sink} {method : Method}
  {statements : List Statement} {inside after : Machine T}

theorem tame (enters : Enters config registry program sink contract method statements inside) :
    Tame registry contract (registry.spaces contract.imports.entries) inside.deeper.heap :=
  enters.ready.tame

theorem eq_ok (enters : Enters config registry program sink contract method statements inside)
    {entry : ObjectId} (ran : runProgram config registry program (start sink) = .ok entry after) :
    entry = 0 ∧ ∃ last, steps (executeWithin config (config.maxCallDepth - 1)) 0 statements
      inside.deeper = .ok () last ∧ after = { last with depth := last.depth - 1 } := by
  obtain ⟨_, there, finished, same⟩ := bind_eq_ok (enters.run.symm.trans ran)
  cases same
  exact ⟨rfl, nested_eq_ok finished⟩

theorem eq_error (enters : Enters config registry program sink contract method statements inside)
    {e : Error} (failed : runProgram config registry program (start sink) = .error e after) :
    ∃ last, steps (executeWithin config (config.maxCallDepth - 1)) 0 statements inside.deeper =
      .error e last ∧ after = { last with depth := last.depth - 1 } := by
  rcases bind_eq_error (enters.run.symm.trans failed) with stopped | ⟨_, _, _, impossible⟩
  · exact nested_eq_error stopped
  · cases impossible

end Enters

variable (registry) in
/-- A run has written nothing when the depth limit and the body are checked, and all that it does
after that are the statements of the body. -/
theorem runProgram_cases {config : Config} {program : Program} {method : Method}
    (entry : program.entry config = .ok (contract, method)) (sink : Sink) :
    (∃ ready : Machine T, Ready registry contract sink ready ∧
      bindImports registry 0 contract.imports.entries ((start sink).instantiate contract) =
        .ok () ready ∧
      ((config.maxCallDepth = 0 ∧
          runProgram config registry program (start sink) = .error (.callDepth 0) ready) ∨
        ∃ e, method.compile config.mode = .error e ∧
          runProgram config registry program (start sink) = .error e ready)) ∨
    ∃ statements inside, Enters config registry program sink contract method statements inside := by
  obtain ⟨ready, isReady, linked, ran⟩ := exists_ready registry entry sink
  have plain : ∀ value ∈ ([] : List (Value T.Class)), value.Plain ready.heap.size :=
    fun _ member => nomatch member
  rcases executeWithin_cases isReady.tame config config.maxCallDepth method plain with
    ⟨limit, executed⟩ | ⟨e, refused, executed⟩ |
    ⟨left, statements, inside, room, reads, bound, kept, executed⟩
  · refine .inl ⟨ready, isReady, linked, .inl ⟨limit, ?_⟩⟩
    rw [ran, bind_apply, executed, limit]
  · refine .inl ⟨ready, isReady, linked, .inr ⟨e, refused, ?_⟩⟩
    rw [ran, bind_apply, executed]
  · -- parameters are fields of the entry instance, so binding them writes and counts nothing
    have only := bindParams_onlyObjects 0 method.params [] ready
    rw [leaves_of_ok bound] at only
    have isInside : Ready registry contract sink inside := by
      refine ⟨?_, ?_, ?_, kept⟩
      · rw [only, ← isReady.sink]
      · rw [only, ← isReady.depth]
      · rw [only, ← isReady.executed]
    have remaining : left = config.maxCallDepth - 1 := by omega
    refine .inr ⟨statements, inside, entry, by omega, reads, ?_, isInside, ?_⟩
    · simp only [bind_apply, linked, bound]
    · rw [ran, bind_apply, executed, bind_apply, remaining]

theorem exists_enters {config : Config} {program : Program} {sink : Sink} {entry : ObjectId}
    {after : Machine T} (ran : runProgram config registry program (start sink) = .ok entry after) :
    ∃ contract method statements inside,
      Enters config registry program sink contract method statements inside := by
  cases found : program.entry config with
  | error e =>
    simp only [runProgram, found] at ran
    cases ran
  | ok pair =>
    obtain ⟨contract, method⟩ := pair
    rcases runProgram_cases registry found sink with
      ⟨_, _, _, ⟨_, stopped⟩ | ⟨_, _, stopped⟩⟩ | ⟨statements, inside, enters⟩
    · cases stopped.symm.trans ran
    · cases stopped.symm.trans ran
    · exact ⟨contract, method, statements, inside, enters⟩

theorem entry_error {config : Config} {program : Program} {e : Error}
    (missing : program.entry config = .error e) :
    e = .noEntryContract config.entryContract ∨
      ∃ contract, e = .noEntryMethod contract config.entryMethod := by
  unfold Program.entry at missing
  split at missing
  · cases missing
    exact .inl rfl
  · split at missing
    · cases missing
      exact .inr ⟨_, rfl⟩
    · cases missing

/-- A failed run has written nothing if its error is one of the text of a program, and its calls
are no reason but at a limit of zero. -/
theorem runProgram_error (fails : registry.FailsAsHost) {config : Config} {program : Program}
    {sink : Sink} {e : Error} {after : Machine T}
    (failed : runProgram config registry program (start sink) = .error e after) :
    (e.isSyntax = true → after.sink = sink) ∧
      (e.ofCall = true → config.maxCallDepth = 0 ∧ e = .callDepth 0) := by
  cases found : program.entry config with
  | error e' =>
    simp only [runProgram, found] at failed
    cases failed
    refine ⟨fun _ => rfl, fun called => ?_⟩
    rcases entry_error found with rfl | ⟨_, rfl⟩ <;> cases called
  | ok pair =>
    obtain ⟨contract, method⟩ := pair
    rcases runProgram_cases registry found sink with
      ⟨ready, isReady, _, ⟨limit, ran⟩ | ⟨e', refused, ran⟩⟩ | ⟨statements, inside, enters⟩
    · cases ran.symm.trans failed
      exact ⟨fun _ => isReady.sink, fun _ => ⟨limit, rfl⟩⟩
    · cases ran.symm.trans failed
      refine ⟨fun _ => isReady.sink, fun called => ?_⟩
      rcases method.compile_error refused with ⟨_, rfl⟩ | ⟨_, _, rfl⟩ <;> cases called
    · obtain ⟨last, inner, _⟩ := enters.eq_error failed
      obtain ⟨semantic, uncalled⟩ := Error.of_ofStatement (steps_error fails enters.tame inner)
      exact ⟨fun syntactic => by simp [semantic] at syntactic,
        fun called => by simp [uncalled] at called⟩

theorem runProgram_executed {config : Config} {program : Program} {sink : Sink} {entry : ObjectId}
    {after : Machine T} (ran : runProgram config registry program (start sink) = .ok entry after) :
    ∃ contract method statements, program.entry config = .ok (contract, method) ∧
      method.compile config.mode = .ok statements ∧ after.executed = statements.length := by
  obtain ⟨contract, method, statements, inside, enters⟩ := exists_enters ran
  obtain ⟨_, last, inner, rfl⟩ := enters.eq_ok ran
  refine ⟨contract, method, statements, enters.entry, enters.reads, ?_⟩
  calc last.executed
      = inside.executed + statements.length := steps_executed enters.tame _ inner
    _ = statements.length := by rw [enters.ready.executed, Nat.zero_add]

/-! ### Depth -/

/-- An execution on the entry instance goes no deeper than the method itself. -/
theorem Passes.depth_le {config : Config} {frames : Nat} {method : Method}
    {args : List (Value T.Class)} {seen : Machine T}
    (passes : Passes config frames 0 method args m seen)
    (plain : ∀ value ∈ args, value.Plain m.heap.size)
    (tame : Tame registry contract spaces m.heap) : seen.depth ≤ m.depth + 1 := by
  cases passes with
  | begins => exact Nat.le_succ _
  | @binds _ _ _ _ _ _ params reads part =>
    rw [bindParams_onlyObjects 0 params args m]
    exact Nat.le_succ _
  | @runs _ _ _ _ _ _ inside front reads bound part =>
    have only := bindParams_onlyObjects 0 method.params args m
    rw [leaves_of_ok bound] at only
    have depth : inside.depth = m.depth := by rw [only]
    rw [KeepsDepth.steps (executeWithin_keepsDepth config _) 0 front inside.deeper]
    exact Nat.le_of_eq (congrArg (· + 1) depth)
  | calls reads bound part reached resolves found =>
    exact absurd found (not_instance_of_reached (deeper_tame tame plain bound) reached resolves _ _)
  | ends =>
    rw [executeWithin_keepsDepth config frames 0 method args m]
    exact Nat.le_succ _

theorem RunPasses.depth_le_one {config : Config} {program : Program} {sink : Sink}
    {seen : Machine T} (passes : RunPasses config registry program (start sink) seen) :
    seen.depth ≤ 1 := by
  cases passes with
  | begins => exact Nat.zero_le 1
  | @imports contract method imports entry part =>
    rw [bindImports_onlyObjects registry _ imports ((start sink).instantiate contract)]
    exact Nat.zero_le 1
  | @body contract method ready seen entry bound inner =>
    obtain ⟨ready', isReady, bound', _⟩ := exists_ready registry entry sink
    cases bound.symm.trans bound'
    have bounded := inner.depth_le (fun _ member => nomatch member) isReady.tame
    rwa [isReady.depth] at bounded
  | ends =>
    cases found : program.entry config with
    | error e =>
      simp only [leaves, runProgram, found]
      exact Nat.zero_le 1
    | ok pair =>
      obtain ⟨contract, method⟩ := pair
      obtain ⟨ready, isReady, _, ran⟩ := exists_ready registry found sink
      rw [leaves_congr ran, leaves_bind_pure, executeWithin_keepsDepth config _ 0 method [] ready,
        isReady.depth]
      exact Nat.zero_le 1

/-! ### Sources -/

/-- A source text fails at its tokens, before anything runs, or it fails as its program does. -/
theorem runSource_error {config : Config} {source : String} {e : Error} {m after : Machine T}
    (failed : runSource config registry source m = .error e after) :
    (Program.ofSource source = .error e ∧ after = m) ∨
      ∃ program, Program.ofSource source = .ok program ∧
        runProgram config registry program m = .error e after := by
  cases clean : Finding.check source with
  | cons finding findings =>
    simp only [runSource, clean] at failed
    cases failed
  | nil =>
    cases read : Program.ofSource source with
    | error e' =>
      simp only [runSource, clean, read] at failed
      cases failed
      exact .inl ⟨rfl, rfl⟩
    | ok program =>
      simp only [runSource, clean, read] at failed
      rcases bind_eq_error failed with stopped | ⟨_, _, _, impossible⟩
      · exact .inr ⟨program, rfl, stopped⟩
      · cases impossible

theorem runSource_completed {config : Config} {source : String} {entry : ObjectId}
    {m after : Machine T}
    (ran : runSource config registry source m = .ok (.completed entry) after) :
    ∃ program, Program.ofSource source = .ok program ∧
      runProgram config registry program m = .ok entry after := by
  cases clean : Finding.check source with
  | cons finding findings =>
    simp only [runSource, clean] at ran
    cases ran
  | nil =>
    cases read : Program.ofSource source with
    | error e =>
      simp only [runSource, clean, read] at ran
      cases ran
    | ok program =>
      simp only [runSource, clean, read] at ran
      obtain ⟨_, _, finished, same⟩ := bind_eq_ok ran
      cases same
      exact ⟨program, rfl, finished⟩

/-- How a run of a source text ends, over classes that fail with errors of their own only. -/
theorem runSource_outcome (fails : registry.FailsAsHost) (config : Config) (source : String)
    (sink : Sink) :
    (∀ e after, runSource config registry source (start sink) = .error e after →
      (e.isSyntax = true → after.sink = sink) ∧
      (∀ method contract, e ≠ .noMethod method contract) ∧
      ∀ limit, e = .callDepth limit → config.maxCallDepth = 0) ∧
    (config.maxCallDepth = 0 → Finding.check source = [] →
      ∀ program found, Program.ofSource source = .ok program → program.entry config = .ok found →
        ∃ after, runSource config registry source (start sink) = .error (.callDepth 0) after) ∧
    (∀ entry after, runSource config registry source (start sink) = .ok (.completed entry) after →
      ∃ program contract method statements, Program.ofSource source = .ok program ∧
        program.entry config = .ok (contract, method) ∧
        method.compile config.mode = .ok statements ∧ after.executed = statements.length) ∧
    ∀ program seen, Program.ofSource source = .ok program →
      RunPasses config registry program (start sink) seen → seen.depth ≤ 1 := by
  refine ⟨fun e after failed => ?_, fun limit clean program found read entry => ?_,
    fun entry after ran => ?_, fun program seen _ passes => passes.depth_le_one⟩
  · have kinds : (e.isSyntax = true → after.sink = sink) ∧
        (e.ofCall = true → config.maxCallDepth = 0 ∧ e = .callDepth 0) := by
      rcases runSource_error failed with ⟨refused, rfl⟩ | ⟨program, _, stopped⟩
      · obtain ⟨_, _, _, rfl⟩ := Program.ofTokens_error refused
        refine ⟨fun _ => rfl, fun called => ?_⟩
        cases called
      · exact runProgram_error fails stopped
    refine ⟨kinds.1, ?_, ?_⟩
    · rintro method contract rfl
      cases (kinds.2 rfl).2
    · rintro limit rfl
      exact (kinds.2 rfl).1
  · obtain ⟨ready, _, _, ran⟩ := exists_ready registry entry sink
    refine ⟨ready, ?_⟩
    simp only [runSource, clean, read, bind_apply, ran, limit, executeWithin]
    rfl
  · obtain ⟨program, read, finished⟩ := runSource_completed ran
    obtain ⟨contract, method, statements, entry, reads, counted⟩ := runProgram_executed finished
    exact ⟨program, contract, method, statements, read, entry, reads, counted⟩

end Machine

namespace Grey

theorem failsAsHost (registry : Registry toolkit) : registry.FailsAsHost where
  construct _ _ _ refused := nomatch refused
  set _ _ _ _ _ _ _ refused := Handle.set_error refused
  invoke _ _ _ _ _ _ _ refused := Handle.invoke_error refused

end Grey

namespace Machine

/-- A source text with a body of three statements. -/
def labelSource : String :=
  "contract App \x7b import grey aka ui;
   public func main() \x7b let l = ui.Label(); l.text(\"hi\"); print(l); \x7d \x7d"

/-- A source text whose body starts with a good statement and goes on without one. -/
def brokenSource : String :=
  "contract App \x7b public func main() \x7b print(1); oops \x7d \x7d"

theorem runSource_outcome_label :
    Grey.registry.FailsAsHost ∧
    (∃ after, runSource {} Grey.registry brokenSource (start .unlimited) =
      .error (.unrecognized "main" 5 "oops") after ∧ after.sink = .unlimited) ∧
    (∃ after, runSource { maxCallDepth := 0 } Grey.registry labelSource (start .unlimited) =
      .error (.callDepth 0) after) ∧
    ∃ entry after program contract method statements,
      runSource {} Grey.registry labelSource (start .unlimited) = .ok (.completed entry) after ∧
      Program.ofSource labelSource = .ok program ∧ program.entry {} = .ok (contract, method) ∧
      method.compile .strict = .ok statements ∧ after.executed = statements.length ∧
      RunPasses {} Grey.registry program (start .unlimited) after ∧ after.depth ≤ 1 := by
  have fails := Grey.failsAsHost Grey.registry
  have completes : (match runSource {} Grey.registry labelSource (start .unlimited) with
      | .ok (.completed _) _ => true
      | _ => false) = true := by decide +kernel
  split at completes
  · next entry after ran =>
    obtain ⟨program, contract, method, statements, read, found, reads, counted⟩ :=
      (runSource_outcome fails {} labelSource .unlimited).2.2.1 entry after ran
    have passes : RunPasses {} Grey.registry program (start .unlimited) after := by
      obtain ⟨program', read', finished⟩ := runSource_completed ran
      cases read.symm.trans read'
      exact leaves_of_ok finished ▸ .ends
    refine ⟨fails, ?_, ?_, entry, after, program, contract, method, statements, ran, read, found,
      reads, counted, passes, ?_⟩
    · have stops : failsBy (fun e => e = .unrecognized "main" 5 "oops")
          (runSource {} Grey.registry brokenSource) (start .unlimited) = true := by decide +kernel
      obtain ⟨e, after, ran, same⟩ := exists_error_of_failsBy stops
      obtain rfl : e = .unrecognized "main" 5 "oops" := by simpa using same
      exact ⟨after, ran, ((runSource_outcome fails {} brokenSource .unlimited).1 _ _ ran).1 rfl⟩
    · have clean : Finding.check labelSource = [] := by decide +kernel
      exact (runSource_outcome fails { maxCallDepth := 0 } labelSource .unlimited).2.1 rfl clean
        program (contract, method) read found
    · exact (runSource_outcome fails {} labelSource .unlimited).2.2.2 program after read passes
  · cases completes

end Machine

end ContractScript
