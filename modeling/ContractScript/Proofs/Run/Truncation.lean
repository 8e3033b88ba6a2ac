import ContractScript.Proofs.Machine.Truncation

/-!
Runs whose output is cut off. Binding the imports prints nothing, so a run of a program is cut where
the call of its entry method is. Main statement: a sink with room for some number of bytes changes
nothing about a run or a call that prints no more, and ends any other one at the print that it has
no room for, with exactly as many bytes of the output as it takes.
-/

namespace ContractScript

open ContractScript.Action Machine Stage

variable {T : Toolkit} {α : Type}

namespace Machine

/-- The machine with another sink for its output. -/
def into (m : Machine T) (sink : Sink) : Machine T := { m with sink }

end Machine

namespace Action

/-- What the action prints into a sink that takes everything, however it ends. -/
def printed (a : Action T α) (m : Machine T) : Array UInt8 :=
  (leaves a (m.into .unlimited)).sink.written

/-- What a sink with room for `limit` bytes makes of an action whose first stage is as `first`
says. -/
structure Truncates (config : Config) (limit : Nat) (a : Action T α) (m : Machine T)
    (first : Stage T → Prop) : Prop where
  /-- The same end, with the same objects and counts, and everything printed. -/
  fits : (printed a m).size ≤ limit →
    a (m.into (.limited limit)) = endWithin limit (a (m.into .unlimited))
  /-- The action fails in the print that goes beyond the limit: the objects are those before this
  print, and it is the last statement begun. -/
  cut : limit < (printed a m).size → ∃ s p, first s ∧ Exceeds config limit s p ∧
    a (m.into (.limited limit)) = .error (.output Sink.full)
      { heap := p.machine.heap
        sink := ⟨some 0, (printed a m).take limit⟩
        depth := m.depth
        executed := p.machine.executed + 1 }

end Action

namespace Machine

theorem runProgram_fits (config : Config) (registry : Registry T) (program : Program) :
    Fits (runProgram config registry program) := by
  have kept := Fits.compositional (T := T)
  unfold runProgram
  split
  · exact kept.throw _
  · apply Fits.bind (kept.allocate _)
    intro entry
    apply Fits.bind (kept.sequential.bindImports registry entry _)
    intro _
    exact (call_fits config entry config.entryMethod []).bind fun _ => kept.pure entry

/-- The stage from which the entry method of a program is called, with its imports bound. -/
def RunBegins (config : Config) (registry : Registry T) (program : Program) (m : Machine T)
    (s : Stage T) : Prop :=
  ∃ contract main ready, program.entry config = .ok (contract, main) ∧
    bindImports registry m.heap.nextId contract.imports.entries (m.instantiate contract) =
      .ok () ready ∧
    s = calls m.heap.nextId config.entryMethod [] ready

theorem runProgram_eq (config : Config) {registry : Registry T} {program : Program}
    {contract : Contract} {main : Method} {m : Machine T}
    (entry : program.entry config = .ok (contract, main)) :
    runProgram config registry program m =
      (bindImports registry m.heap.nextId contract.imports.entries >>= fun _ =>
        call config m.heap.nextId config.entryMethod [] >>= fun _ => pure m.heap.nextId)
        (m.instantiate contract) := by
  simp only [runProgram, entry]
  rfl

theorem bindImports_ends (registry : Registry T) (entry : ObjectId)
    (imports : List (String × String)) {m : Machine T} (room : m.sink.room = none) {limit : Nat}
    (keeps : m.sink.written.size ≤ limit) :
    Ends (bindImports registry entry imports) m
      (fun _ ready => ready.sink = m.sink ∧ ready.depth = m.depth ∧
        bindImports registry entry imports (m.within limit) = .ok () (ready.within limit))
      (fun _ here => here.sink = m.sink) := by
  have only := bindImports_onlyObjects registry entry imports m
  have silent := congrArg Machine.sink only
  have level := congrArg Machine.depth only
  have fits : Fits (bindImports registry entry imports) :=
    Fits.compositional.sequential.bindImports registry entry imports
  have same := fits.same m limit room (by rw [silent]; exact keeps)
  unfold Ends
  unfold leaves at silent level
  cases bound : bindImports registry entry imports m with
  | ok x ready =>
    rw [bound] at silent level same
    exact ⟨silent, level, same⟩
  | error e here =>
    rw [bound] at silent
    exact silent

/-- A run that prints has called its entry method, since binding the imports prints nothing. -/
theorem runProgram_within_of_beyond (config : Config) (registry : Registry T) (program : Program)
    {m : Machine T} (room : m.sink.room = none) {limit : Nat} (keeps : m.sink.written.size ≤ limit)
    (beyond : limit < (leaves (runProgram config registry program) m).sink.written.size) :
    ∃ s p, RunBegins config registry program m s ∧ Exceeds config limit s p ∧
      runProgram config registry program (m.within limit) = .error (.output Sink.full)
        { heap := p.machine.heap
          sink := ⟨some 0,
            (leaves (runProgram config registry program) m).sink.written.take limit⟩
          depth := m.depth
          executed := p.machine.executed + 1 } := by
  cases entry : program.entry config with
  | error e =>
    have refused : leaves (runProgram config registry program) m = m := by
      simp only [leaves, runProgram, entry]
      rfl
    rw [refused] at beyond
    omega
  | ok found =>
    obtain ⟨contract, main⟩ := found
    have binds := bindImports_ends registry m.heap.nextId contract.imports.entries
      (m := m.instantiate contract) room keeps
    have limited : runProgram config registry program (m.within limit) =
        (bindImports registry m.heap.nextId contract.imports.entries >>= fun _ =>
          call config m.heap.nextId config.entryMethod [] >>= fun _ => pure m.heap.nextId)
          ((m.instantiate contract).within limit) := runProgram_eq config entry
    rw [leaves_congr (runProgram_eq config entry), leaves_bind] at beyond ⊢
    rw [limited, bind_apply]
    unfold Ends at binds
    cases bound : bindImports registry m.heap.nextId contract.imports.entries
        (m.instantiate contract) with
    | error e here =>
      rw [bound] at binds
      simp only [bound] at beyond
      rw [show here.sink = m.sink from binds] at beyond
      omega
    | ok x ready =>
      simp only [bound] at binds beyond ⊢
      obtain ⟨sink, depth, boundWithin⟩ := binds
      rw [leaves_bind_pure] at beyond ⊢
      obtain ⟨p, exceeds, cut⟩ := call_within_of_beyond config (m := ready) (sink ▸ room)
        (sink ▸ keeps) m.heap.nextId config.entryMethod [] beyond
      refine ⟨_, p, ⟨contract, main, ready, entry, bound, rfl⟩, exceeds, ?_⟩
      simp only [boundWithin, bind_apply, cut, depth]
      rfl

/-- A limit on the output of a run or a call cuts the output at the limit and changes nothing
before the cut. -/
theorem output_truncated (config : Config) (limit : Nat) :
    (∀ (registry : Registry T) (program : Program) (m : Machine T),
      Truncates config limit (runProgram config registry program) m
        (RunBegins config registry program (m.into .unlimited))) ∧
    ∀ (receiver : ObjectId) (method : String) (args : List (Value T.Class)) (m : Machine T),
      Truncates config limit (call config receiver method args) m
        (· = calls receiver method args (m.into .unlimited)) := by
  refine ⟨fun registry program m => ⟨fun keeps => ?_, fun beyond => ?_⟩,
    fun receiver method args m => ⟨fun keeps => ?_, fun beyond => ?_⟩⟩
  · exact (runProgram_fits config registry program).same _ limit rfl keeps
  · exact runProgram_within_of_beyond config registry program (m := m.into .unlimited) rfl
      (Nat.zero_le limit) beyond
  · exact (call_fits config receiver method args).same _ limit rfl keeps
  · obtain ⟨p, exceeds, cut⟩ := call_within_of_beyond config (m := m.into .unlimited) rfl
      (Nat.zero_le limit) receiver method args beyond
    exact ⟨_, p, rfl, exceeds, cut⟩

example : (leaves (call {} 0 "main" []) (greeting.into (.limited 5))).sink =
    ⟨some 0, "Ada\nA".toUTF8.data⟩ := by decide +kernel

end Machine

end ContractScript
