import ContractScript.Grey
import ContractScript.Proofs.Machine.Passage
import ContractScript.Proofs.Run.Layout

/-!
Isolation of the entry instance. In a heap of the layout of a run no statement reaches a method of
an instance: calls end at host objects or fail. So the layout lasts from the first import to the end
of the run. Main statement: in every machine that a run passes through, fields of the entry instance
hold plain values and references to namespaces and host objects, and nothing refers to an instance.
-/

namespace ContractScript

open ContractScript.Action

variable {T : Toolkit}

namespace Machine

open Heap (Tame)

variable {registry : Registry T} {contract : Contract} {spaces : List (Object T)} {m : Machine T}

theorem evaluate_plain (tame : Tame registry contract spaces m.heap) (operand : Operand) :
    (evaluate (m.heap.lookup 0) operand).Plain m.heap.size := by
  cases operand with
  | text contents => trivial
  | integer value => trivial
  | name name =>
    simp only [evaluate]
    cases holds : (m.heap.lookup 0).get? name with
    | none => trivial
    | some value => exact tame.get?_entry holds

theorem resolve_eq_ok (tame : Tame registry contract spaces m.heap) {name : String}
    {id : ObjectId} {after : Machine T} (ran : resolve 0 name m = .ok id after) :
    after = m ∧ (Value.object id : Value T.Class).Plain m.heap.size := by
  rcases resolve_cases 0 name m with ⟨callee, names, found⟩ | ⟨_, refused⟩
  · cases found.symm.trans ran
    exact ⟨rfl, tame.get?_entry names⟩
  · cases refused.symm.trans ran

theorem setField_tame (tame : Tame registry contract spaces m.heap) (name : String)
    {value : Value T.Class} (plain : value.Plain m.heap.size) :
    ∃ after, setField 0 name value m = .ok () after ∧
      Tame registry contract spaces after.heap ∧ after.heap.size = m.heap.size := by
  obtain ⟨fields, found, _⟩ := tame.entry
  exact ⟨_, setField_apply found name value, tame.setEntry found name plain, by simp⟩

/-- The class of a construction comes from a namespace or from a host object. -/
theorem offers_of_class (tame : Tame registry contract spaces m.heap) {id : ObjectId}
    (plain : (Value.object id : Value T.Class).Plain m.heap.size) {name : String}
    {c : ClassObject T.Class} (holds : (m.heap.lookup id).get? name = some (.cls c)) :
    registry.Offers c.cls := by
  rcases tame.object_cases plain with ⟨_, _, module, space⟩ | ⟨_, giver, given, found, hosts, _⟩
  · obtain ⟨classes, c', registered, member, same⟩ := Registry.space?_get? space holds
    cases same
    exact .registered registered member
  · rw [found] at holds
    exact .answered hosts holds

/-- What a statement on the entry instance does in a heap of the layout of a run, from the machine
`before` that has it counted: it is refused and changes nothing, or it sets a field of the entry
instance, or it prints, or it asks a host object. No method of an instance has a part in it. -/
inductive Effect (registry : Registry T) (contract : Contract) (spaces : List (Object T))
    (before : Machine T) (ended : EStateM.Result Error (Machine T) Unit) : Statement → Prop
  | refused {statement e}
      (reason : e.ofStatement = true ∨ ∃ cls, registry.Offers cls ∧ T.construct cls = .error e)
      (stays : ended = .error e before) : Effect registry contract spaces before ended statement
  | constructs {target space cls holder c handle fields}
      (names : (before.heap.lookup 0).get? space = some (.object holder))
      (offers : (before.heap.lookup holder).get? cls = some (.cls c))
      (made : T.construct c.cls = .ok handle)
      (entry : before.heap.lookup 0 = .interpreted (some contract) fields)
      (stores : ended = .ok () { before with
        heap := (before.heap.push (.ofHandle handle)).put 0 (.interpreted (some contract)
          (fields.insert target (.object before.heap.nextId))) }) :
      Effect registry contract spaces before ended (.construct target space cls)
  | assigns {target value fields}
      (entry : before.heap.lookup 0 = .interpreted (some contract) fields)
      (stores : ended = .ok () { before with
        heap := before.heap.put 0 (.interpreted (some contract)
          (fields.insert target (evaluate (before.heap.lookup 0) value))) }) :
      Effect registry contract spaces before ended (.assign target value)
  | prints {value}
      (writes : ended = printLine (evaluate (before.heap.lookup 0) value) before) :
      Effect registry contract spaces before ended (.print value)
  | asks {target method operands callee handle given}
      (names : (before.heap.lookup 0).get? target = some (.object callee))
      (beyond : spaces.length < callee) (found : before.heap.lookup callee = .hosted handle ∅)
      (hosts : registry.Hosts handle given)
      (plain : ∀ value ∈ given, value.Plain before.heap.size)
      (answers : ended = (callHost callee method
        (operands.map (evaluate (before.heap.lookup 0))) >>= fun _ => pure ()) before) :
      Effect registry contract spaces before ended (.call target method operands)

theorem construct_effect (tame : Tame registry contract spaces m.heap)
    (target space cls : String) :
    Effect registry contract spaces m
      ((construct 0 space cls >>= fun made => setField 0 target (.object made)) m)
      (.construct target space cls) := by
  have ends := construct_ends 0 space cls m
  unfold Ends at ends
  rw [bind_apply]
  cases ran : construct 0 space cls m with
  | ok made after =>
    rw [ran] at ends
    obtain ⟨holder, c, handle, names, offers, constructed, rfl, rfl⟩ := ends
    obtain ⟨fields, entry, _⟩ := tame.entry
    have still : (m.heap.push (.ofHandle handle)).lookup 0 =
        .interpreted (some contract) fields := by
      rw [Heap.lookup_push_of_lt _ _ (Nat.zero_lt_of_lt tame.room), entry]
    exact .constructs names offers constructed entry
      (setField_apply (m := { m with heap := m.heap.push (.ofHandle handle) }) still target _)
  | error e after =>
    rw [ran] at ends
    obtain ⟨rfl, plain | ⟨holder, c, names, offers, failed⟩⟩ := ends
    · exact .refused (.inl plain) rfl
    · exact .refused (.inr ⟨c.cls, offers_of_class tame (tame.get?_entry names) offers, failed⟩) rfl

/-- A call on what a field refers to ends at a host object, or at a namespace without methods. -/
theorem call_effect (tame : Tame registry contract spaces m.heap)
    (execute : ObjectId → Method → List (Value T.Class) → Action T Unit) (target method : String)
    (operands : List Operand) :
    Effect registry contract spaces m
      ((do
        let callee ← resolve 0 target
        let o ← object 0
        let _ ← dispatch execute callee method (operands.map (evaluate o)) : Action T Unit) m)
      (.call target method operands) := by
  rw [bind_apply]
  rcases resolve_cases 0 target m with ⟨callee, names, ran⟩ | ⟨e, ran⟩
  · simp only [ran, bind_apply, object_apply]
    rcases tame.object_cases (tame.get?_entry names) with ⟨_, _, module, space⟩ |
      ⟨beyond, handle, given, found, hosts, plain⟩
    · obtain ⟨fields, namespace_⟩ := Registry.space?_interpreted space
      refine .refused (e := .noContract method) (.inl rfl) ?_
      simp only [dispatch, bind_apply, object_apply, namespace_]
      rfl
    · refine .asks names beyond found hosts plain ?_
      simp only [dispatch, bind_apply, object_apply, found]
  · simp only [ran]
    exact .refused (.inl (resolve_error ran)) rfl

theorem step_effect (tame : Tame registry contract spaces m.heap)
    (execute : ObjectId → Method → List (Value T.Class) → Action T Unit) (statement : Statement) :
    Effect registry contract spaces m.begun (step execute 0 statement m) statement := by
  have begun : Tame registry contract spaces m.begun.heap := tame
  rw [step_apply]
  cases statement with
  | construct target space cls => exact construct_effect begun target space cls
  | call target method operands => exact call_effect begun execute target method operands
  | print value => exact .prints rfl
  | assign target value =>
    obtain ⟨fields, entry, _⟩ := begun.entry
    exact .assigns entry (setField_apply entry target _)

/-- A host object takes no more than it is given. -/
theorem callHost_tame (tame : Tame registry contract spaces m.heap) {callee : ObjectId}
    (beyond : spaces.length < callee) {handle : T.Handle} {given : List (Value T.Class)}
    (found : m.heap.lookup callee = .hosted handle ∅) (hosts : registry.Hosts handle given)
    (old : ∀ value ∈ given, value.Plain m.heap.size) (method : String)
    {args : List (Value T.Class)} (plain : ∀ value ∈ args, value.Plain m.heap.size) :
    Tame registry contract spaces (leaves (callHost callee method args) m).heap := by
  have live : callee < m.heap.size := Heap.lt_size_of_lookup (found ▸ nofun)
  obtain ⟨changed, heap, change⟩ := callHost_heap found method args
  rw [heap]
  rcases change with rfl | ⟨render, value, rfl, rfl⟩ | ⟨render, rfl⟩
  · exact tame.putHost beyond live hosts old
  · refine tame.putHost beyond live (hosts.set render method value) ?_
    intro held member
    rcases List.mem_cons.mp member with rfl | earlier
    · exact plain held List.mem_cons_self
    · exact old held earlier
  · refine tame.putHost beyond live (hosts.invoked render method args) ?_
    intro held member
    rcases List.mem_append.mp member with now | earlier
    · exact plain held now
    · exact old held earlier

theorem step_tame (tame : Tame registry contract spaces m.heap)
    (execute : ObjectId → Method → List (Value T.Class) → Action T Unit) (statement : Statement) :
    Tame registry contract spaces (leaves (step execute 0 statement) m).heap := by
  have begun : Tame registry contract spaces m.begun.heap := tame
  cases step_effect tame execute statement with
  | refused reason stays => simpa only [leaves, stays] using begun
  | constructs names offers made entry stores =>
    have hosts := (offers_of_class begun (begun.get?_entry names) offers).hosts made
    have live : 0 < m.begun.heap.size := Nat.zero_lt_of_lt begun.room
    rw [leaves_of_ok stores]
    refine (begun.pushHost hosts).setEntry ?_ _ ⟨live, ?_⟩
    · rw [Heap.lookup_push_of_lt _ _ live]
      exact entry
    · exact Nat.lt_of_lt_of_eq (Nat.lt_succ_self _) (Heap.size_push ..).symm
  | assigns entry stores =>
    rw [leaves_of_ok stores]
    exact begun.setEntry entry _ (evaluate_plain begun _)
  | prints writes =>
    rw [leaves_congr writes, leaves_printLine]
    exact begun
  | asks names beyond found hosts old answers =>
    rw [leaves_congr answers, leaves_bind_pure]
    refine callHost_tame begun beyond found hosts old _ fun value member => ?_
    obtain ⟨operand, _, rfl⟩ := List.mem_map.mp member
    exact evaluate_plain begun operand

theorem steps_tame (tame : Tame registry contract spaces m.heap)
    (execute : ObjectId → Method → List (Value T.Class) → Action T Unit)
    (statements : List Statement) :
    Tame registry contract spaces (leaves (steps execute 0 statements) m).heap := by
  induction statements generalizing m with
  | nil => exact tame
  | cons statement rest ih =>
    have first := step_tame tame execute statement
    change Tame registry contract spaces
      (leaves (step execute 0 statement >>= fun _ => steps execute 0 rest) m).heap
    rw [leaves_bind]
    unfold leaves at first
    cases ran : step execute 0 statement m with
    | ok x after => exact ih (by simpa [ran] using first)
    | error e after => simpa [ran] using first

theorem bindParams_tame (tame : Tame registry contract spaces m.heap) (params : List String)
    {args : List (Value T.Class)} (plain : ∀ value ∈ args, value.Plain m.heap.size) :
    ∃ after, bindParams 0 params args m = .ok () after ∧
      Tame registry contract spaces after.heap := by
  induction params generalizing m args with
  | nil => exact ⟨m, rfl, tame⟩
  | cons param params ih =>
    have plainHead : (args.headD .null).Plain m.heap.size := by
      cases args with
      | nil => trivial
      | cons value rest => exact plain value List.mem_cons_self
    obtain ⟨after, ran, kept, size⟩ := setField_tame tame param plainHead
    have plainTail : ∀ value ∈ args.tail, value.Plain after.heap.size := by
      intro value member
      rw [size]
      exact plain value (List.mem_of_mem_tail member)
    obtain ⟨later, ranRest, keptRest⟩ := ih kept plainTail
    refine ⟨later, ?_, keptRest⟩
    simp only [bindParams, bind_apply, ran]
    exact ranRest

theorem deeper_tame (tame : Tame registry contract spaces m.heap) {params : List String}
    {args : List (Value T.Class)} (plain : ∀ value ∈ args, value.Plain m.heap.size)
    {inside : Machine T} (bound : bindParams 0 params args m = .ok () inside) :
    Tame registry contract spaces inside.deeper.heap := by
  obtain ⟨_, ran, kept⟩ := bindParams_tame tame params plain
  cases bound.symm.trans ran
  exact kept

/-- An execution stops at the depth limit, or at a body that does not read, or it binds the
parameters and goes on to the statements. -/
theorem executeWithin_cases (tame : Tame registry contract spaces m.heap) (config : Config)
    (frames : Nat) (method : Method) {args : List (Value T.Class)}
    (plain : ∀ value ∈ args, value.Plain m.heap.size) :
    (frames = 0 ∧
      executeWithin config frames 0 method args m = .error (.callDepth config.maxCallDepth) m) ∨
    (∃ e, method.compile config.mode = .error e ∧
      executeWithin config frames 0 method args m = .error e m) ∨
    ∃ left statements inside, frames = left + 1 ∧ method.compile config.mode = .ok statements ∧
      bindParams 0 method.params args m = .ok () inside ∧
      Tame registry contract spaces inside.deeper.heap ∧
      executeWithin config frames 0 method args m =
        nested (steps (executeWithin config left) 0 statements) inside := by
  cases frames with
  | zero => exact .inl ⟨rfl, rfl⟩
  | succ left =>
    unfold executeWithin
    cases method.compile config.mode with
    | error e => exact .inr (.inl ⟨e, rfl, rfl⟩)
    | ok statements =>
      obtain ⟨inside, bound, kept⟩ := bindParams_tame tame method.params plain
      refine .inr (.inr ⟨left, statements, inside, rfl, rfl, bound, kept, ?_⟩)
      simp only [bind_apply, bound]

theorem executeWithin_tame (tame : Tame registry contract spaces m.heap) (config : Config)
    (frames : Nat) (method : Method) {args : List (Value T.Class)}
    (plain : ∀ value ∈ args, value.Plain m.heap.size) :
    Tame registry contract spaces (leaves (executeWithin config frames 0 method args) m).heap := by
  rcases executeWithin_cases tame config frames method plain with ⟨_, ran⟩ | ⟨_, _, ran⟩ |
    ⟨left, statements, inside, _, _, _, running, ran⟩
  · simpa only [leaves, ran] using tame
  · simpa only [leaves, ran] using tame
  · rw [leaves_congr ran, leaves_nested_heap]
    exact steps_tame running _ statements

/-- What a field refers to is no instance, so no statement enters a method of one. -/
theorem not_instance_of_reached (tame : Tame registry contract spaces m.heap)
    {execute : ObjectId → Method → List (Value T.Class) → Action T Unit} {front : List Statement}
    {here : Machine T} (reached : steps execute 0 front m = .ok () here) {target : String}
    {callee : ObjectId} (resolves : resolve 0 target here.begun = .ok callee here.begun)
    (instanceOf : Contract) (fields : Table (Value T.Class)) :
    here.heap.lookup callee ≠ .interpreted (some instanceOf) fields := by
  intro found
  have reachedTame : Tame registry contract spaces here.begun.heap :=
    leaves_of_ok reached ▸ steps_tame tame execute front
  have none := reachedTame.contract?_eq_none (resolve_eq_ok reachedTame resolves).2
  have same : here.begun.heap.lookup callee = _ := found
  rw [same] at none
  cases none

theorem Passes.tame {config : Config} {frames : Nat} {method : Method}
    {args : List (Value T.Class)} {seen : Machine T}
    (passes : Passes config frames 0 method args m seen)
    (plain : ∀ value ∈ args, value.Plain m.heap.size)
    (tame : Tame registry contract spaces m.heap) :
    Tame registry contract spaces seen.heap := by
  cases passes with
  | begins => exact tame
  | @binds _ _ _ _ _ _ params reads part =>
    obtain ⟨after, bound, kept⟩ := bindParams_tame tame params plain
    rw [leaves_of_ok bound]
    exact kept
  | @runs _ _ _ _ _ _ inside front reads bound part =>
    exact steps_tame (deeper_tame tame plain bound) _ front
  | calls reads bound part reached resolves found =>
    exact absurd found (not_instance_of_reached (deeper_tame tame plain bound) reached resolves _ _)
  | ends => exact executeWithin_tame tame config frames method plain

/-- The namespaces of a run are made first, right after the entry instance and in the order of the
imports. -/
theorem bindImports_tame (tame : Tame registry contract spaces m.heap)
    (full : m.heap.size = spaces.length + 1) (imports : List (String × String)) :
    ∃ after, bindImports registry 0 imports m = .ok () after ∧
      Tame registry contract (spaces ++ registry.spaces imports) after.heap := by
  induction imports generalizing m spaces with
  | nil =>
    refine ⟨m, rfl, ?_⟩
    simpa [Registry.spaces] using tame
  | cons entry rest ih =>
    obtain ⟨localName, module⟩ := entry
    rw [Registry.spaces_cons]
    cases made : registry.space? module with
    | none =>
      obtain ⟨after, ran, kept⟩ := ih tame full
      refine ⟨after, ?_, by simpa using kept⟩
      simp only [bindImports, made]
      exact ran
    | some space =>
      let grown : Machine T := { m with heap := m.heap.push space }
      have pushed : Tame registry contract (spaces ++ [space]) grown.heap :=
        tame.pushSpace full made
      have size : grown.heap.size = (spaces ++ [space]).length + 1 := by
        rw [Heap.size_push, full, List.length_append, List.length_singleton]
      have plain : (Value.object m.heap.nextId : Value T.Class).Plain grown.heap.size := by
        refine ⟨Nat.zero_lt_of_lt tame.room, ?_⟩
        exact Nat.lt_of_lt_of_eq (Nat.lt_succ_self _) (Heap.size_push ..).symm
      obtain ⟨bound, ran, keptBound, same⟩ := setField_tame pushed localName plain
      obtain ⟨after, ranRest, kept⟩ := ih keptBound (by rw [same, size])
      refine ⟨after, ?_, by simpa using kept⟩
      simp only [bindImports, made, bind_apply, allocate_apply]
      rw [ran]
      exact ranRest

theorem start_tame (registry : Registry T) (contract : Contract) (sink : Sink) :
    Tame registry contract [] ((start sink : Machine T).instantiate contract).heap := by
  constructor
  · refine ⟨contract.fields.map fun _ => .null, rfl, ?_⟩
    intro name value holds
    rw [Table.get?_map, Option.map_eq_some_iff] at holds
    obtain ⟨_, _, rfl⟩ := holds
    trivial
  · exact Nat.zero_lt_one
  · intro i object found
    simp at found
  · intro object member
    cases member
  · intro id beyond bound
    have size : ((start sink : Machine T).instantiate contract).heap.size = 1 := rfl
    rw [size] at bound
    exact absurd beyond (by simpa using Nat.lt_one_iff.mp bound)

theorem entry_eq_ok {config : Config} {program : Program} {method : Method}
    (entry : program.entry config = .ok (contract, method)) :
    program.contracts.get? config.entryContract = some contract ∧
      contract.methods.get? config.entryMethod = some method := by
  unfold Program.entry at entry
  split at entry
  · cases entry
  · next found =>
    split at entry
    · cases entry
    · next offers =>
      cases entry
      exact ⟨found, offers⟩

theorem call_entry (tame : Tame registry contract spaces m.heap) (config : Config) {name : String}
    {method : Method} (offers : contract.methods.get? name = some method)
    (args : List (Value T.Class)) :
    call config 0 name args m =
      (executeWithin config (config.maxCallDepth - m.depth) 0 method args >>=
        fun _ => pure .null) m := by
  obtain ⟨fields, found, _⟩ := tame.entry
  simp only [call, dispatch, bind_apply, object_apply, found, offers]
  rfl

variable (registry) in
/-- A run of a program with an entry is the execution of its entry method, once the imports are
bound. -/
theorem runProgram_apply {config : Config} {program : Program} {method : Method}
    (entry : program.entry config = .ok (contract, method)) (sink : Sink) :
    ∃ ready, bindImports registry 0 contract.imports.entries
        ((start sink : Machine T).instantiate contract) = .ok () ready ∧
      Tame registry contract (registry.spaces contract.imports.entries) ready.heap ∧
      runProgram config registry program (start sink) =
        (executeWithin config (config.maxCallDepth - ready.depth) 0 method [] >>=
          fun _ => pure 0) ready := by
  obtain ⟨ready, bound, kept⟩ := bindImports_tame (start_tame registry contract sink) rfl
    contract.imports.entries
  refine ⟨ready, bound, by simpa using kept, ?_⟩
  have called := call_entry kept config (entry_eq_ok entry).2 []
  have boundAtEntry : bindImports registry (start sink : Machine T).heap.nextId
      contract.imports.entries ((start sink).instantiate contract) = .ok () ready := bound
  have calledAtEntry : call config (start sink : Machine T).heap.nextId config.entryMethod []
      ready = _ := called
  simp only [instantiate] at boundAtEntry
  simp only [runProgram, entry, bind_apply, allocate_apply, boundAtEntry, calledAtEntry]
  cases executeWithin config (config.maxCallDepth - ready.depth) 0 method [] ready <;> rfl

theorem runProgram_tame {config : Config} {program : Program} {method : Method}
    (entry : program.entry config = .ok (contract, method)) (sink : Sink) :
    Tame registry contract (registry.spaces contract.imports.entries)
      (leaves (runProgram config registry program) (start sink)).heap := by
  obtain ⟨ready, _, kept, ran⟩ := runProgram_apply registry entry sink
  rw [leaves_congr ran, leaves_bind_pure]
  exact executeWithin_tame kept config _ method (fun _ member => nomatch member)

/-- The part of a run before its first object has nothing in its heap; after that the layout of the
heap is that of the imports bound so far. -/
theorem RunPasses.tame {config : Config} {program : Program} {sink : Sink} {seen : Machine T}
    (passes : RunPasses config registry program (start sink) seen) :
    seen.heap = .empty ∨ ∃ contract method imports,
      program.entry config = .ok (contract, method) ∧ imports <+: contract.imports.entries ∧
        Tame registry contract (registry.spaces imports) seen.heap := by
  cases passes with
  | begins => exact .inl rfl
  | @imports contract method imports entry part =>
    obtain ⟨after, bound, kept⟩ := bindImports_tame (start_tame registry contract sink) rfl imports
    refine .inr ⟨contract, method, imports, entry, part, ?_⟩
    have ends := leaves_of_ok bound
    change Tame registry contract _ (leaves (bindImports registry 0 imports) _).heap
    rw [ends]
    exact kept
  | @body contract method ready seen entry bound inner =>
    obtain ⟨after, bound', kept⟩ := bindImports_tame (start_tame registry contract sink) rfl
      contract.imports.entries
    obtain rfl : ready = after := by
      have same := bound.symm.trans bound'
      cases same
      rfl
    exact .inr ⟨contract, method, _, entry, List.prefix_rfl,
      inner.tame (fun _ member => nomatch member) kept⟩
  | ends =>
    cases entry : program.entry config with
    | error e =>
      have refused : runProgram config registry program (start sink) = .error e (start sink) := by
        simp only [runProgram, entry]
        rfl
      exact .inl (by simp only [leaves, refused]; rfl)
    | ok found => exact .inr ⟨_, _, _, rfl, List.prefix_rfl, runProgram_tame entry sink⟩

end Machine

namespace Registry

/-- The namespaces that a run of a program makes. -/
def entrySpaces (registry : Registry T) (config : Config) (program : Program) : List (Object T) :=
  match program.entry config with
  | .ok (contract, _) => registry.spaces contract.imports.entries
  | .error _ => []

end Registry

namespace Machine

theorem runProgram_answer {config : Config} {registry : Registry T} {program : Program}
    {sink : Sink} {entry : ObjectId} {after : Machine T}
    (ran : runProgram config registry program (start sink) = .ok entry after) : entry = 0 := by
  cases found : program.entry config with
  | error e =>
    simp only [runProgram, found] at ran
    cases ran
  | ok pair =>
    simp only [runProgram, found, bind_apply, allocate_apply] at ran
    split at ran
    · split at ran
      · cases ran
        rfl
      · cases ran
    · cases ran

/-- Whatever a run passes through, and whether it succeeds or fails, its entry instance is kept to
itself: host objects that create no references never come to hold one to it. -/
theorem run_isolated {registry : Registry T} (creates : registry.CreatesNoReferences)
    (config : Config) (program : Program) (sink : Sink) :
    (∀ seen, RunPasses config registry program (start sink) seen →
      seen.heap.Isolated registry (registry.entrySpaces config program)) ∧
    ∀ entry after, runProgram config registry program (start sink) = .ok entry after →
      entry = 0 := by
  refine ⟨fun seen passes => ?_, fun entry after ran => runProgram_answer ran⟩
  rcases passes.tame with empty | ⟨contract, method, imports, entry, part, kept⟩
  · rw [empty]
    exact .empty
  · have made : registry.entrySpaces config program =
        registry.spaces contract.imports.entries := by
      simp only [Registry.entrySpaces, entry]
    rw [made]
    exact .of_tame creates kept (part.filterMap _)

end Machine

namespace Grey

theorem createsNoReferences (registry : Registry toolkit) : registry.CreatesNoReferences := by
  constructor
  · intro handle given name id _ answer
    change Handle.get handle name = _ at answer
    cases handle with
    | window w =>
      simp only [Handle.get, Window.get] at answer
      split_ifs at answer <;> cases answer
    | label l =>
      simp only [Handle.get, Label.get] at answer
      split_ifs at answer
      cases answer
  · intro handle given render name args id _ answer
    change (Handle.invoke handle name).1 = _ at answer
    cases handle with
    | window w =>
      simp only [Handle.invoke, Window.invoke] at answer
      split_ifs at answer <;> cases answer
    | label l =>
      simp only [Handle.invoke, Label.invoke] at answer
      split_ifs at answer <;> cases answer

end Grey

namespace Machine

/-- A run that makes a window and a label, hands the window to itself, and fails after that. -/
def windowed : Program :=
  Program.empty.addContract <|
    ((Contract.named "App").addImport "ui" Grey.moduleName).addMethod
      ⟨"main", .exposed, [], "Void",
        Token.scan "let w = ui.GRC(); let l = ui.Label(); w.title(w); print(w); ghost.show();"⟩

def windowedEnd : Machine Grey.toolkit :=
  leaves (runProgram {} Grey.registry windowed) (start .unlimited)

/-- A run that succeeds, with nothing to do. -/
def idle : Program :=
  Program.empty.addContract <|
    (Contract.named "App").addMethod ⟨"main", .exposed, [], "Void", []⟩

theorem run_isolated_windowed :
    Grey.registry.CreatesNoReferences ∧
    (RunPasses {} Grey.registry windowed (start .unlimited) windowedEnd ∧
      failsBy (fun e => e = .undefinedReference "ghost") (runProgram {} Grey.registry windowed)
        (start .unlimited) = true ∧
      windowedEnd.heap.size = 4 ∧
      windowedEnd.heap.Isolated Grey.registry (Grey.registry.entrySpaces {} windowed)) ∧
    ∃ entry after, runProgram {} Grey.registry idle (start .unlimited) = .ok entry after ∧
      entry = 0 := by
  have creates := Grey.createsNoReferences Grey.registry
  refine ⟨creates, ?_, ?_⟩
  · have passes : RunPasses {} Grey.registry windowed (start .unlimited) windowedEnd := .ends
    refine ⟨passes, by decide +kernel, by decide +kernel, ?_⟩
    exact (run_isolated creates {} windowed .unlimited).1 windowedEnd passes
  · have fine : failsBy (fun _ => true) (runProgram {} Grey.registry idle) (start .unlimited) =
        false := by decide +kernel
    cases ran : runProgram {} Grey.registry idle (start .unlimited) with
    | ok entry after =>
      exact ⟨entry, after, rfl, (run_isolated creates {} idle .unlimited).2 entry after ran⟩
    | error e after => simp [failsBy, ran] at fine

end Machine

end ContractScript
