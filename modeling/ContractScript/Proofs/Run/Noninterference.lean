import ContractScript.Proofs.Machine.Likeness
import ContractScript.Proofs.Run.Isolation

/-!
What a run does not depend on. An instance carries its contract along, with methods that a call
could look up. In the heap of a run no call reaches an instance, so two runs that start with the
same entry method stay alike, statement by statement, whatever else their programs hold. Main
statement: runs of two programs end alike when the entry contracts agree on what the entry method
needs.
-/

namespace ContractScript

open ContractScript.Action

variable {T : Toolkit}

/-- Methods that only their access and their return types may tell apart. -/
structure Method.SameCode (f g : Method) : Prop where
  name : f.name = g.name
  params : f.params = g.params
  body : f.body = g.body

/-- Contracts that agree on their names, their imports, the names of their fields, and one method or
the absence of it. -/
structure Contract.SameEntry (entryMethod : String) (c d : Contract) : Prop where
  name : c.name = d.name
  imports : c.imports = d.imports
  fields : c.fields.keys = d.fields.keys
  method : Option.Rel Method.SameCode (c.methods.get? entryMethod) (d.methods.get? entryMethod)

namespace Table

variable {α β γ : Type}

theorem map_const_congr {s : Table α} {t : Table β} (same : s.keys = t.keys) (value : γ) :
    (s.map fun _ => value) = t.map fun _ => value := by
  apply Table.ext
  have entries : ∀ {δ : Type} (u : Table δ),
      (u.map fun _ => value).entries = u.keys.map fun key => (key, value) := by
    intro δ u
    simp [Table.map, keys]
  rw [entries, entries, same]

end Table

namespace Machine

open Heap (Tame)

variable {registry : Registry T} {contract : Contract} {spaces : List (Object T)}
  {m n : Machine T}

theorem step_sameEnd (tame : Tame registry contract spaces m.heap) (alike : m.Alike n)
    (execute : ObjectId → Method → List (Value T.Class) → Action T Unit) (statement : Statement) :
    SameEnd (step execute 0 statement m) (step execute 0 statement n) := by
  have begun := alike.begun
  have begunTame : Tame registry contract spaces m.begun.heap := tame
  rw [step_apply, step_apply]
  cases statement with
  | construct target space cls =>
    apply Respects.bind (construct_respects 0 space cls) _ _ _ begun
    exact fun made => setField_respects 0 target _
  | call target method operands =>
    apply SameEnd.bind (resolve_respects 0 target _ _ begun)
    intro callee after later ran _ like
    obtain ⟨rfl, plain⟩ := resolve_eq_ok begunTame ran
    -- the callee is no instance, so no contract is asked for the method
    have outside := begunTame.contract?_eq_none plain
    have called := dispatch_sameEnd execute execute like outside method
      (operands.map (evaluate (m.begun.heap.lookup 0)))
    change SameEnd
      ((dispatch execute callee method (operands.map (evaluate (m.begun.heap.lookup 0))) >>=
        fun _ => pure ()) m.begun)
      ((dispatch execute callee method (operands.map (evaluate (later.heap.lookup 0))) >>=
        fun _ => pure ()) later)
    rw [← (like.objects 0).evaluate]
    exact called.bind fun _ _ _ _ _ ended => .ok ended
  | print value =>
    refine Respects.object_bind 0 ?_ ?_ _ _ begun
    · intro o p same
      rw [same.evaluate]
    · exact fun o => printLine_respects _
  | assign target value =>
    refine Respects.object_bind 0 ?_ ?_ _ _ begun
    · intro o p same
      rw [same.evaluate]
    · exact fun o => setField_respects 0 target _

theorem steps_sameEnd (tame : Tame registry contract spaces m.heap) (alike : m.Alike n)
    (execute : ObjectId → Method → List (Value T.Class) → Action T Unit)
    (statements : List Statement) :
    SameEnd (steps execute 0 statements m) (steps execute 0 statements n) := by
  induction statements generalizing m n with
  | nil => exact .ok alike
  | cons statement rest ih =>
    -- the layout is that of the first machine; the second one need only be alike
    have kept := step_tame tame execute statement
    apply SameEnd.bind (step_sameEnd tame alike execute statement)
    intro _ after later ran _ like
    rw [leaves_of_ok ran] at kept
    exact ih kept like

theorem executeWithin_sameEnd (tame : Tame registry contract spaces m.heap) (alike : m.Alike n)
    (config : Config) (frames : Nat) {f g : Method} (code : f.SameCode g)
    {args : List (Value T.Class)} (plain : ∀ value ∈ args, value.Plain m.heap.size) :
    SameEnd (executeWithin config frames 0 f args m) (executeWithin config frames 0 g args n) := by
  cases frames with
  | zero => exact .error alike
  | succ frames =>
    have compiled : f.compile config.mode = g.compile config.mode := by
      simp only [Method.compile, code.name, code.body]
    unfold executeWithin
    rw [← compiled, ← code.params]
    cases f.compile config.mode with
    | error e => exact .error alike
    | ok statements =>
      apply SameEnd.bind (bindParams_respects 0 f.params args m n alike)
      intro _ inside later bound _ like
      have deeper : inside.deeper.Alike later.deeper := like.withDepth (· + 1)
      exact .nested (steps_sameEnd (deeper_tame tame plain bound) deeper _ statements)

theorem instantiate_alike {c d : Contract} (named : c.name = d.name)
    (fields : c.fields.keys = d.fields.keys) (sink : Sink) :
    ((start sink : Machine T).instantiate c).Alike ((start sink).instantiate d) := by
  have begun : (start sink : Machine T).Alike (start sink) :=
    ⟨rfl, rfl, rfl, rfl, fun _ => .refl _⟩
  apply begun.push
  simp only [Object.ofContract, Table.map_const_congr fields]
  exact .instances c d _ named

theorem runProgram_sameEnd {config : Config} {p q : Program} {c d : Contract} {f g : Method}
    (entryP : p.entry config = .ok (c, f)) (entryQ : q.entry config = .ok (d, g))
    (same : c.SameEntry config.entryMethod d) (code : f.SameCode g) (sink : Sink) :
    SameEnd (runProgram config registry p (start sink))
      (runProgram config registry q (start sink)) := by
  obtain ⟨ready, bound, kept, ran⟩ := runProgram_apply registry entryP sink
  obtain ⟨ready', bound', _, ran'⟩ := runProgram_apply registry entryQ sink
  have like : ready.Alike ready' := by
    have ends := bindImports_respects registry 0 c.imports.entries _ _
      (instantiate_alike same.name same.fields sink)
    rw [bound, same.imports, bound'] at ends
    cases ends with
    | ok like => exact like
  have plain : ∀ value ∈ ([] : List (Value T.Class)), value.Plain ready.heap.size :=
    fun _ member => nomatch member
  have executed := executeWithin_sameEnd kept like config (config.maxCallDepth - ready.depth) code
    plain
  rw [ran, ran', ← like.depth]
  exact executed.bind fun _ _ _ _ _ ended => .ok ended

/-- Everything but the entry method, and the names it runs under, is without influence on a run: on
its answer or error, on what it writes and counts, and on the fields and host objects it leaves. -/
theorem run_noninterference (config : Config) (registry : Registry T) {p q : Program}
    (same : Option.Rel (Contract.SameEntry config.entryMethod)
      (p.contracts.get? config.entryContract) (q.contracts.get? config.entryContract))
    (sink : Sink) :
    SameEnd (runProgram config registry p (start sink))
      (runProgram config registry q (start sink)) := by
  have begun : (start sink : Machine T).Alike (start sink) :=
    ⟨rfl, rfl, rfl, rfl, fun _ => .refl _⟩
  generalize foundP : p.contracts.get? config.entryContract = first at same
  generalize foundQ : q.contracts.get? config.entryContract = second at same
  cases same with
  | none =>
    simp only [runProgram, Program.entry, foundP, foundQ]
    exact .error begun
  | @some c d entry =>
    have method := entry.method
    generalize offersP : c.methods.get? config.entryMethod = first at method
    generalize offersQ : d.methods.get? config.entryMethod = second at method
    cases method with
    | none =>
      simp only [runProgram, Program.entry, foundP, foundQ, offersP, offersQ, entry.name]
      exact .error begun
    | @some f g code =>
      have entryP : p.entry config = .ok (c, f) := by
        simp only [Program.entry, foundP, offersP]
      have entryQ : q.entry config = .ok (d, g) := by
        simp only [Program.entry, foundQ, offersQ]
      exact runProgram_sameEnd entryP entryQ entry code sink

/-- A body that binds a window and a number and prints both. -/
def countingBody : List Token :=
  Token.scan "let w = ui.GRC(); let count = 3; print(w); print(count);"

def counting : Contract :=
  (((Contract.named "App").addImport "ui" Grey.moduleName).addField "count"
    ⟨.exposed, "Unknown", none⟩).addMethod ⟨"main", .exposed, [], "Void", countingBody⟩

/-- The same entry method under other labels, with a broken method besides. -/
def recounting : Contract :=
  ((((Contract.named "App").addImport "ui" Grey.moduleName).addField "count"
    ⟨.internal, "Integer", some "7"⟩).addMethod
      ⟨"main", .internal, [], "Integer", countingBody⟩).addMethod
    ⟨"broken", .exposed, [], "Void", Token.scan "oops"⟩

/-- A program that holds a second contract. -/
def withClock (c : Contract) : Program :=
  (Program.empty.addContract (Contract.named "Clock")).addContract c

theorem counting_sameEntry : counting.SameEntry "main" recounting := by
  refine ⟨rfl, rfl, by decide +kernel, ?_⟩
  have offers : counting.methods.get? "main" =
      some ⟨"main", .exposed, [], "Void", countingBody⟩ := by decide +kernel
  have offersToo : recounting.methods.get? "main" =
      some ⟨"main", .internal, [], "Integer", countingBody⟩ := by decide +kernel
  rw [offers, offersToo]
  exact .some ⟨rfl, rfl, rfl⟩

theorem run_noninterference_counting :
    Option.Rel (Contract.SameEntry "main")
      ((Program.empty.addContract counting).contracts.get? "App")
      ((withClock recounting).contracts.get? "App") ∧
    (leaves (runProgram {} Grey.registry (Program.empty.addContract counting))
      (start .unlimited)).executed = 4 ∧
    SameEnd (runProgram {} Grey.registry (Program.empty.addContract counting) (start .unlimited))
      (runProgram {} Grey.registry (withClock recounting) (start .unlimited)) := by
  have same : Option.Rel (Contract.SameEntry "main")
      ((Program.empty.addContract counting).contracts.get? "App")
      ((withClock recounting).contracts.get? "App") := by
    have found : (Program.empty.addContract counting).contracts.get? "App" = some counting :=
      Table.get?_insert_self ..
    have foundToo : (withClock recounting).contracts.get? "App" = some recounting :=
      Table.get?_insert_self ..
    rw [found, foundToo]
    exact .some counting_sameEntry
  exact ⟨same, by decide +kernel, run_noninterference {} Grey.registry same .unlimited⟩

end Machine

end ContractScript
