import ContractScript.Proofs.Run.Opening

/-!
The fields of the entry instance in the course of a run. A statement that binds a name stores one
field, and no other statement touches the instance: a host object that is called changes no more
than itself. Main statement: which fields there are when a run ends, in success or failure, and what
each of them holds.
-/

namespace ContractScript

open ContractScript.Action

variable {T : Toolkit}

/-- The field that a statement binds, if it binds one. -/
def Statement.target? : Statement → Option String
  | construct target .. | assign target _ => some target
  | call .. | print _ => none

namespace Machine

open Heap (Tame)

/-- Executed over the heap `h`, a statement that binds a field stores the value there, and leaves
the heap `later`: what its operand says, or a new object of the class that it names. -/
inductive Stores (h : Heap T) : Statement → Value T.Class → Heap T → Prop
  | assigned {target operand later} :
      Stores h (.assign target operand) (evaluate (h.lookup 0) operand) later
  | constructed {target space cls holder c handle later}
      (names : (h.lookup 0).get? space = some (.object holder))
      (offers : (h.lookup holder).get? cls = some (.cls c))
      (made : T.construct c.cls = .ok handle) (placed : later.lookup h.nextId = .ofHandle handle) :
      Stores h (.construct target space cls) (.object h.nextId) later

variable {registry : Registry T} {contract : Contract} {spaces : List (Object T)}
  {m after : Machine T} {execute : ObjectId → Method → List (Value T.Class) → Action T Unit}
  {statement : Statement} {statements : List Statement} {name : String}

theorem callHost_entry {callee : ObjectId} {handle : T.Handle} {written : Table (Value T.Class)}
    (found : m.heap.lookup callee = .hosted handle written) (away : 0 < callee) (method : String)
    (args : List (Value T.Class)) :
    (leaves (callHost callee method args) m).heap.lookup 0 = m.heap.lookup 0 := by
  obtain ⟨changed, heap, _⟩ := callHost_heap found method args
  rw [heap]
  rcases m.heap.lookup_put_cases callee 0 (.hosted changed written) with same | ⟨first, _⟩
  · exact same
  · exact absurd first (Nat.ne_of_lt away)

/-- A statement that runs leaves the entry instance alone, or it stores the field that it binds. -/
theorem Effect.entry_ok (tame : Tame registry contract spaces m.heap)
    (effect : Effect registry contract spaces m (.ok () after) statement) :
    (statement.target? = none ∧ after.heap.lookup 0 = m.heap.lookup 0) ∨
    ∃ target value fields, statement.target? = some target ∧
      Stores m.heap statement value after.heap ∧
      m.heap.lookup 0 = .interpreted (some contract) fields ∧
      after.heap.lookup 0 = .interpreted (some contract) (fields.insert target value) := by
  have live : 0 < m.heap.size := Nat.zero_lt_of_lt tame.room
  cases effect with
  | refused _ stays => cases stays
  | @constructs target space cls holder c handle fields names offers made entry stores =>
    cases stores
    have grown : 0 < (m.heap.push (.ofHandle handle)).size := by simp
    refine .inr ⟨target, _, fields, rfl, .constructed names offers made ?_, entry, ?_⟩
    · have away : m.heap.nextId ≠ 0 := Nat.ne_of_gt live
      rw [Heap.lookup_put _ _ _ _ grown, if_neg away]
      exact Heap.lookup_push_size ..
    · rw [Heap.lookup_put _ _ _ _ grown, if_pos rfl]
  | @assigns target value fields entry stores =>
    cases stores
    refine .inr ⟨target, _, fields, rfl, .assigned, entry, ?_⟩
    rw [Heap.lookup_put _ _ _ _ live, if_pos rfl]
  | prints writes =>
    have only := leaves_of_ok writes.symm
    rw [leaves_printLine] at only
    subst only
    exact .inl ⟨rfl, rfl⟩
  | asks names beyond found _ _ answers =>
    have same := callHost_entry found (Nat.zero_lt_of_lt beyond)
    have only := leaves_of_ok answers.symm
    rw [leaves_bind_pure] at only
    subst only
    exact .inl ⟨rfl, same _ _⟩

theorem Effect.entry_error {e : Error}
    (effect : Effect registry contract spaces m (.error e after) statement) :
    after.heap.lookup 0 = m.heap.lookup 0 := by
  cases effect with
  | refused _ stays =>
    cases stays
    rfl
  | constructs _ _ _ _ stores => cases stores
  | assigns _ stores => cases stores
  | prints writes =>
    have only := leaves_of_error writes.symm
    rw [leaves_printLine] at only
    rw [← only]
  | asks names beyond found _ _ answers =>
    have same := callHost_entry found (Nat.zero_lt_of_lt beyond)
    have only := leaves_of_error answers.symm
    rw [leaves_bind_pure] at only
    rw [← only, same]

/-- How statements that ran from `m` have changed fields that were `old`: those that none of them
binds are as they were, and the others hold what the last statement to bind them has stored. -/
structure Written (execute : ObjectId → Method → List (Value T.Class) → Action T Unit)
    (statements : List Statement) (m : Machine T) (old new : String → Option (Value T.Class)) :
    Prop where
  kept : ∀ name, (∀ statement ∈ statements, statement.target? ≠ some name) → new name = old name
  stored : ∀ name, (∃ statement ∈ statements, statement.target? = some name) →
    ∃ front statement back here there value, statements = front ++ statement :: back ∧
      statement.target? = some name ∧ (∀ later ∈ back, later.target? ≠ some name) ∧
      steps execute 0 front m = .ok () here ∧ step execute 0 statement here = .ok () there ∧
      Stores here.heap statement value there.heap ∧ new name = some value

theorem Written.append_one {old new newer : String → Option (Value T.Class)}
    (written : Written execute statements m old new) {here : Machine T}
    (before : steps execute 0 statements m = .ok () here)
    (ran : step execute 0 statement here = .ok () after)
    (last : ∀ name, (statement.target? ≠ some name ∧ newer name = new name) ∨
      statement.target? = some name ∧ ∃ value, Stores here.heap statement value after.heap ∧
        newer name = some value) :
    Written execute (statements ++ [statement]) m old newer where
  kept name absent := by
    rcases last name with ⟨_, same⟩ | ⟨binds, _⟩
    · rw [same]
      exact written.kept name fun earlier member => absent earlier (List.mem_append_left _ member)
    · exact absurd binds (absent statement (by simp))
  stored name present := by
    rcases last name with ⟨other, same⟩ | ⟨binds, value, stores, holds⟩
    · have earlier : ∃ statement ∈ statements, statement.target? = some name := by
        obtain ⟨found, member, binds⟩ := present
        rcases List.mem_append.mp member with early | late
        · exact ⟨found, early, binds⟩
        · cases List.mem_singleton.mp late
          exact absurd binds other
      obtain ⟨front, found, back, first, second, value, split, binds, unbound, reaches, stepped,
        stores, holds⟩ := written.stored name earlier
      refine ⟨front, found, back ++ [statement], first, second, value, by simp [split], binds, ?_,
        reaches, stepped, stores, same.trans holds⟩
      intro later member
      rcases List.mem_append.mp member with early | late
      · exact unbound later early
      · cases List.mem_singleton.mp late
        exact other
    · exact ⟨statements, statement, [], here, after, value, rfl, binds, nofun, before, ran, stores,
        holds⟩

theorem Written.nil {old new : String → Option (Value T.Class)}
    (same : ∀ name, new name = old name) :
    Written execute [] m old new where
  kept name _ := same name
  stored _ present := by simp at present

theorem steps_written (tame : Tame registry contract spaces m.heap)
    {old : Table (Value T.Class)} (entry : m.heap.lookup 0 = .interpreted (some contract) old)
    (ran : steps execute 0 statements m = .ok () after) :
    ∃ new : Table (Value T.Class), after.heap.lookup 0 = .interpreted (some contract) new ∧
      Written execute statements m old.get? new.get? := by
  -- From the last statement on: what is bound last is found first.
  induction statements using List.reverseRecOn generalizing after with
  | nil =>
    cases ran
    exact ⟨old, entry, .nil fun _ => rfl⟩
  | append_singleton front statement ih =>
    rw [steps_append] at ran
    obtain ⟨_, here, before, last⟩ := bind_eq_ok ran
    obtain ⟨_, there, stepped, same⟩ := bind_eq_ok last
    cases same
    obtain ⟨fields, found, written⟩ := ih before
    have reached : Tame registry contract spaces here.begun.heap :=
      leaves_of_ok before ▸ steps_tame tame execute front
    have effect := step_effect (m := here) reached execute statement
    rw [stepped] at effect
    rcases effect.entry_ok reached with ⟨unbound, same⟩ |
      ⟨target, value, fields', binds, stores, found', stored⟩
    · refine ⟨fields, same.trans found,
        written.append_one before stepped fun name => .inl ⟨?_, rfl⟩⟩
      rw [unbound]
      exact nofun
    · cases found.symm.trans found'
      refine ⟨fields.insert target value, stored, written.append_one before stepped fun name => ?_⟩
      rw [Table.get?_insert, binds]
      by_cases same : name = target
      · subst same
        exact .inr ⟨rfl, value, stores, if_pos rfl⟩
      · refine .inl ⟨fun equal => same (Option.some.inj equal).symm, if_neg same⟩

/-! ### Runs -/

/-- The entry instance after statements that ran from `begun` in a run. Its fields are the declared
ones, the imports whose modules are registered, the parameters, and what the statements bind; a
field that no statement binds is as the run opened with it, and so are the namespaces of imports. -/
structure Framed (config : Config) (registry : Registry T) (contract : Contract)
    (params : List String) (statements : List Statement) (begun after : Machine T)
    (fields : Table (Value T.Class)) : Prop where
  entry : after.heap.lookup 0 = .interpreted (some contract) fields
  names : ∀ name, name ∈ fields.keys ↔
    name ∈ contract.fields.keys ∨
      (∃ module, contract.imports.get? name = some module ∧ registry.space? module ≠ none) ∨
      name ∈ params ∨ ∃ statement ∈ statements, statement.target? = some name
  written : Written (executeWithin config (config.maxCallDepth - 1)) statements begun
    (contract.opening params (registry.linked contract)) fields.get?
  spaces : ∀ name id, registry.linked contract name = some id →
    ∃ module, contract.imports.get? name = some module ∧
      registry.space? module = some (after.heap.lookup id)

theorem opening_ne_none_iff {params : List String} :
    (contract.opening params (registry.linked contract) name : Option (Value T.Class)) ≠ none ↔
      name ∈ contract.fields.keys ∨
        (∃ module, contract.imports.get? name = some module ∧ registry.space? module ≠ none) ∨
        name ∈ params := by
  rw [← Registry.linked_ne_none_iff, Contract.opening]
  by_cases among : name ∈ params
  · simp [among]
  · cases registry.linked contract name <;> simp [among]

theorem Written.ne_none_iff {old new : String → Option (Value T.Class)}
    (written : Written execute statements m old new) :
    new name ≠ none ↔
      old name ≠ none ∨ ∃ statement ∈ statements, statement.target? = some name := by
  by_cases bound : ∃ statement ∈ statements, statement.target? = some name
  · obtain ⟨_, _, _, _, _, value, _, _, _, _, _, _, holds⟩ := written.stored name bound
    simp [holds, bound]
  · have kept := written.kept name fun statement member binds => bound ⟨statement, member, binds⟩
    simp [kept, bound]

theorem Framed.of_written {config : Config} {params : List String} {begun : Machine T}
    (tame : Tame registry contract (registry.spaces contract.imports.entries) after.heap)
    {fields : Table (Value T.Class)}
    (entry : after.heap.lookup 0 = .interpreted (some contract) fields)
    (written : Written (executeWithin config (config.maxCallDepth - 1)) statements begun
      (contract.opening params (registry.linked contract)) fields.get?) :
    Framed config registry contract params statements begun after fields where
  entry := entry
  written := written
  spaces _ _ found := tame.linked found
  names name := by
    have present : name ∈ fields.keys ↔ fields.get? name ≠ none := by
      rw [ne_eq, Table.get?_eq_none_iff, not_not]
    rw [present, written.ne_none_iff, opening_ne_none_iff]
    simp only [or_assoc]

namespace Enters

variable {config : Config} {program : Program} {sink : Sink} {method : Method} {inside : Machine T}

theorem framed (enters : Enters config registry program sink contract method statements inside)
    {front : List Statement} {last : Machine T}
    (ran : steps (executeWithin config (config.maxCallDepth - 1)) 0 front inside.deeper =
      .ok () last)
    (tame : Tame registry contract (registry.spaces contract.imports.entries) after.heap)
    (same : after.heap.lookup 0 = last.heap.lookup 0) :
    ∃ fields, Framed config registry contract method.params front inside.deeper after fields := by
  obtain ⟨old, entry, opens⟩ := enters.fields
  obtain ⟨fields, found, written⟩ := steps_written enters.tame entry ran
  have opening : old.get? = contract.opening method.params (registry.linked contract) :=
    funext opens
  exact ⟨fields, .of_written tame (same.trans found) (opening ▸ written)⟩

end Enters

namespace FailsAt

variable {k : Nat} {e : Error} {here last : Machine T}

theorem tame (kept : Tame registry contract spaces m.heap)
    (fails : FailsAt execute 0 statements m k e here last) :
    Tame registry contract spaces here.heap :=
  leaves_of_ok fails.ran ▸ steps_tame kept execute (statements.take k)

theorem executed (kept : Tame registry contract spaces m.heap)
    (fails : FailsAt execute 0 statements m k e here last) :
    last.executed = m.executed + (k + 1) := by
  obtain ⟨statement, there, failed⟩ := fails.failed
  have counted := leaves_step_executed (fails.tame kept) execute statement
  rw [leaves_of_error failed, steps_executed kept execute fails.ran] at counted
  have bound := (List.getElem?_eq_some_iff.mp there).1
  have whole : (statements.take k).length = k := by
    rw [List.length_take]
    omega
  omega

theorem entry_kept (kept : Tame registry contract spaces m.heap)
    (fails : FailsAt execute 0 statements m k e here last) :
    last.heap.lookup 0 = here.heap.lookup 0 := by
  obtain ⟨statement, _, failed⟩ := fails.failed
  have effect := step_effect (fails.tame kept) execute statement
  rw [failed] at effect
  exact effect.entry_error

end FailsAt

/-- When a run ends, the entry instance has the fields that it was given at first and those that its
statements have bound. If the run has failed, these are the statements before the one that failed;
if it has failed before the body was begun, no parameter was bound either. -/
theorem run_frame (config : Config) (registry : Registry T) (program : Program) (sink : Sink) :
    (∀ entry after, runProgram config registry program (start sink) = .ok entry after →
      entry = 0 ∧ ∃ contract method statements inside fields,
        Enters config registry program sink contract method statements inside ∧
        Framed config registry contract method.params statements inside.deeper after fields) ∧
    ∀ e after, runProgram config registry program (start sink) = .error e after →
      (after.executed = 0 ∧ ((program.entry config = .error e ∧ after.heap = .empty) ∨
        ∃ contract method fields, program.entry config = .ok (contract, method) ∧
          Framed config registry contract [] [] after after fields)) ∨
      ∃ contract method statements inside k here last fields,
        Enters config registry program sink contract method statements inside ∧
        FailsAt (executeWithin config (config.maxCallDepth - 1)) 0 statements inside.deeper k e
          here last ∧ after.executed = k + 1 ∧ after.heap = last.heap ∧
        Framed config registry contract method.params (statements.take k) inside.deeper after
          fields := by
  constructor
  · intro entry after ran
    obtain ⟨contract, method, statements, inside, enters⟩ := exists_enters ran
    obtain ⟨rfl, last, finished, same⟩ := enters.eq_ok ran
    have tame : Tame registry contract (registry.spaces contract.imports.entries) after.heap :=
      leaves_of_ok ran ▸ runProgram_tame enters.entry sink
    obtain ⟨fields, framed⟩ := enters.framed finished tame (by rw [same])
    exact ⟨rfl, contract, method, statements, inside, fields, enters, framed⟩
  · intro e after failed
    cases found : program.entry config with
    | error e' =>
      simp only [runProgram, found] at failed
      cases failed
      exact .inl ⟨rfl, .inl ⟨rfl, rfl⟩⟩
    | ok pair =>
      obtain ⟨contract, method⟩ := pair
      have tame : Tame registry contract (registry.spaces contract.imports.entries) after.heap :=
        leaves_of_error failed ▸ runProgram_tame found sink
      rcases runProgram_cases registry found sink with
        ⟨ready, isReady, bound, stopped⟩ | ⟨statements, inside, enters⟩
      · -- the limit or the body has stopped the run where the imports are bound, and nothing else
        obtain rfl : ready = after := by
          rcases stopped with ⟨_, ran⟩ | ⟨_, _, ran⟩ <;> cases ran.symm.trans failed <;> rfl
        obtain ⟨fields, entry, opens⟩ := linked_fields bound
        exact .inl ⟨isReady.executed, .inr ⟨contract, method, fields, rfl,
          .of_written tame entry (.nil opens)⟩⟩
      · obtain ⟨last, stopped, rfl⟩ := enters.eq_error failed
        obtain ⟨k, here, fails⟩ := exists_failsAt stopped
        have kept := fails.entry_kept enters.tame
        obtain ⟨fields, framed⟩ := enters.framed fails.ran tame kept
        refine .inr ⟨contract, method, statements, inside, k, here, last, fields, enters, fails, ?_,
          rfl, framed⟩
        have fresh : inside.deeper.executed = 0 := enters.ready.executed
        have counted := fails.executed enters.tame
        rw [fresh, Nat.zero_add] at counted
        exact counted

def framingMain (body : String) : Method :=
  ⟨"main", .exposed, ["w", "x"], "Void", Token.scan body⟩

/-- A contract with a field, an import and two parameters. -/
def framing (body : String) : Contract :=
  let fields := ["count"].map fun name => (name, ⟨.exposed, "Unknown", none⟩)
  { Contract.named "App" with
      imports := .ofList [("ui", Grey.moduleName)], fields := .ofList fields }.addMethod
    (framingMain body)

theorem framing_entry (body : String) :
    (Program.empty.addContract (framing body)).entry {} = .ok (framing body, framingMain body) := by
  have found : (Program.empty.addContract (framing body)).contracts.get?
      ({} : Config).entryContract = some (framing body) := Table.get?_insert_self ..
  have offers : (framing body).methods.get? ({} : Config).entryMethod =
      some (framingMain body) := Table.get?_insert_self ..
  simp only [Program.entry, found, offers]

/-- Binds a parameter, an import and a field. -/
def rebinding : String := "let w = ui.GRC(); let ui = 2; let count = w; print(x);"

/-- Fails at the second of three statements. -/
def faltering : String := "let seen = 1; ghost.show(); let late = 2;"

theorem run_frame_framing :
    (∃ after statements inside fields,
      runProgram {} Grey.registry (Program.empty.addContract (framing rebinding))
        (start .unlimited) = .ok 0 after ∧
      Framed {} Grey.registry (framing rebinding) ["w", "x"] statements inside after fields ∧
      statements.length = 4 ∧ fields.get? "x" = some .null) ∧
    ∃ e after inside fields,
      runProgram {} Grey.registry (Program.empty.addContract (framing faltering))
        (start .unlimited) = .error e after ∧
      Framed {} Grey.registry (framing faltering) ["w", "x"]
        [.assign "seen" (.integer 1)] inside after fields ∧
      "seen" ∈ fields.keys ∧ "late" ∉ fields.keys := by
  have frame (body : String) := run_frame {} Grey.registry
    (Program.empty.addContract (framing body)) .unlimited
  constructor
  · have reads : (framingMain rebinding).compile .strict = .ok [.construct "w" "ui" "GRC",
        .assign "ui" (.integer 2), .assign "count" (.name "w"), .print (.name "x")] := by
      decide +kernel
    have fine : failsBy (fun _ => true)
        (runProgram {} Grey.registry (Program.empty.addContract (framing rebinding)))
        (start .unlimited) = false := by decide +kernel
    cases ran : runProgram {} Grey.registry (Program.empty.addContract (framing rebinding))
        (start .unlimited) with
    | error e after => simp [failsBy, ran] at fine
    | ok id after =>
      obtain ⟨rfl, contract, method, statements, inside, fields, enters, framed⟩ :=
        (frame rebinding).1 id after ran
      cases (framing_entry rebinding).symm.trans enters.entry
      cases reads.symm.trans enters.reads
      refine ⟨after, _, inside.deeper, fields, rfl, framed, rfl, ?_⟩
      rw [framed.written.kept "x" (by decide)]
      rfl
  · have reads : (framingMain faltering).compile .strict = .ok [.assign "seen" (.integer 1),
        .call "ghost" "show" [], .assign "late" (.integer 2)] := by decide +kernel
    have second : (match runProgram {} Grey.registry (Program.empty.addContract (framing faltering))
        (start .unlimited) with
      | .ok .. => false
      | .error _ after => after.executed == 2) = true := by decide +kernel
    split at second
    · cases second
    · next e after failed =>
      rcases (frame faltering).2 e after failed with ⟨none, _⟩ |
        ⟨contract, method, statements, inside, k, here, last, fields, enters, _, counted, _, framed⟩
      · simp [none] at second
      · cases (framing_entry faltering).symm.trans enters.entry
        cases reads.symm.trans enters.reads
        obtain rfl : k = 1 := by simpa [counted] using second
        refine ⟨e, after, inside.deeper, fields, failed, framed, ?_, ?_⟩
        · rw [framed.names]
          decide +kernel
        · rw [framed.names]
          decide +kernel

end Machine

end ContractScript
