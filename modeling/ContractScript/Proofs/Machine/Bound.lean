import ContractScript.Proofs.Machine.Binding
import ContractScript.Proofs.Machine.Frame
import ContractScript.Proofs.Machine.Limit
import ContractScript.Proofs.Machine.Reach
import ContractScript.Proofs.Machine.Stage
import ContractScript.Proofs.Statement.Errors
import ContractScript.Proofs.Table
import Mathlib.Algebra.BigOperators.Ring.Finset

/-!
How long a call may take. When no method within reach has more than some number of statements, the
statements begun so far, with those that the frames may still begin, stay below a total that depends
on that number and on the limit of nested calls. One invariant carries the total, the number of
frames and the reach of the run from each stage to the next. Main statement: a call ends, no stage of
it has more frames than the limit allows, and the limit refuses exactly the calls that would need one
frame more.
-/

namespace ContractScript

open ContractScript.Action Machine

variable {T : Toolkit}

/-- The methods of contracts within reach have at most `bound` statements or do not read. -/
def Heap.BodiesWithin (h : Heap T) (given : List (Value T.Class)) (mode : Mode)
    (bound : Nat) : Prop :=
  ∀ id contract name body statements, Reachable h given (.object id) →
    (h.lookup id).contract? = some contract → contract.methods.get? name = some body →
    body.compile mode = .ok statements → statements.length ≤ bound

/-- Whether the methods of all contracts in a heap have at most `bound` statements or do not read. -/
def Heap.bodiesWithin (h : Heap T) (mode : Mode) (bound : Nat) : Bool :=
  h.objects.all fun o => o.contract?.all fun contract =>
    contract.methods.entries.all fun entry =>
      match entry.2.compile mode with
      | .ok statements => statements.length ≤ bound
      | .error _ => true

theorem Heap.BodiesWithin.of_all {h : Heap T} {mode : Mode} {bound : Nat}
    (short : h.bodiesWithin mode bound = true) (given : List (Value T.Class)) :
    h.BodiesWithin given mode bound := by
  intro id contract name body statements _ holds offers reads
  by_cases live : id < h.objects.size
  · have object : h.lookup id = h.objects[id] := by
      simp [Heap.lookup, live]
    have whole := Array.all_eq_true.mp short id live
    rw [← object, holds] at whole
    have entry := List.all_eq_true.mp whole (name, body)
      ((Table.mem_entries_iff ..).mpr offers)
    simpa [reads] using entry
  · rw [h.lookup_of_size_le (Nat.le_of_not_lt live)] at holds
    cases holds

namespace Machine

/-- The most statements that a method begins, with those of the methods that it calls, when `frames`
methods can run and each body has at most `bound` statements. -/
def most (bound frames : Nat) : Nat := ∑ i ∈ Finset.range frames, bound ^ (i + 1)

theorem most_succ (bound frames : Nat) :
    most bound (frames + 1) = bound * (1 + most bound frames) := by
  have shifted : ∑ i ∈ Finset.range frames, bound ^ (i + 1 + 1) =
      bound * ∑ i ∈ Finset.range frames, bound ^ (i + 1) := by
    rw [Finset.mul_sum]
    exact Finset.sum_congr rfl fun i _ => pow_succ' bound (i + 1)
  rw [most, Finset.sum_range_succ', shifted, most, Nat.zero_add, pow_one, Nat.mul_add,
    Nat.mul_one, Nat.add_comm]

variable {h : Heap T} {given : List (Value T.Class)} {m : Machine T}

theorem dispatch_nothing_onlyObjects (receiver : ObjectId) (method : String)
    (args : List (Value T.Class)) : OnlyObjects (dispatch nothing receiver method args) :=
  onlyObjects_sequential.dispatch nothing nothing (fun _ _ _ => .pure ()) receiver method args

theorem dispatch_nothing_contained (inside : h.Contained given m.heap) {receiver : ObjectId}
    (reached : Reachable h given (.object receiver)) (method : String)
    {args : List (Value T.Class)} (plain : ∀ arg ∈ args, Reachable h given arg) :
    h.Contained given (leaves (dispatch nothing receiver method args) m).heap := by
  unfold dispatch
  rw [leaves_bind, object_apply]
  cases m.heap.lookup receiver with
  | hosted handle written => exact callHost_contained inside reached method plain
  | interpreted contract fields =>
    cases contract with
    | none => exact inside
    | some contract =>
      simp only
      cases contract.methods.get? method with
      | none => exact inside
      | some body => exact inside

theorem step_nothing_executed (receiver : ObjectId) (statement : Statement) (m : Machine T) :
    (leaves (step nothing receiver statement) m).executed = m.executed + 1 := by
  apply step_executed
  intro _ method _ callee _ _
  rw [dispatch_nothing_onlyObjects callee method]

theorem step_nothing_contained (inside : h.Contained given m.heap) {receiver : ObjectId}
    (reached : Reachable h given (.object receiver)) (statement : Statement) :
    h.Contained given (leaves (step nothing receiver statement) m).heap := by
  have begun : h.Contained given m.begun.heap := inside
  have known := begun.object reached
  rw [leaves_congr (step_apply nothing receiver statement m)]
  cases statement with
  | construct target space cls =>
    rw [leaves_bind]
    have made := construct_contained begun reached space cls
    unfold Ends at made
    cases ran : construct receiver space cls m.begun with
    | ok id here =>
      rw [ran] at made
      exact setField_contained made.1 reached target made.2
    | error e here =>
      rw [ran] at made
      exact made
  | call target method operands =>
    rw [leaves_bind]
    rcases resolve_cases receiver target m.begun with ⟨callee, found, ran⟩ | ⟨e, ran⟩
    · simp only [ran]
      rw [leaves_bind, object_apply]
      simp only
      rw [leaves_bind_pure]
      apply dispatch_nothing_contained begun (known.get? found) method
      intro arg member
      obtain ⟨operand, _, rfl⟩ := List.mem_map.mp member
      exact known.evaluate operand
    · simp only [ran]
      exact begun
  | print value =>
    rw [leaves_bind, object_apply]
    exact printLine_contained begun _
  | assign target value =>
    rw [leaves_bind, object_apply]
    exact setField_contained begun reached target (known.evaluate value)

end Machine

namespace Control

def Known (h : Heap T) (given : List (Value T.Class)) : Control T → Prop
  | calling receiver _ args =>
    Reachable h given (.object receiver) ∧ ∀ arg ∈ args, Reachable h given arg
  | _ => True

/-- The most statements that a call begins. -/
def owed (bound frames : Nat) : Control T → Nat
  | calling .. => most bound frames
  | _ => 0

end Control

namespace Stage

/-- The most statements that the frames begin before all of them are left. -/
def owed (bound limit : Nat) : List Frame → Nat
  | [] => 0
  | frame :: below =>
    frame.rest.length * (1 + most bound (limit - (below.length + 1))) + owed bound limit below

/-- What holds at every stage of a call that was made with no frames on the heap `h`. -/
structure Kept (config : Config) (h : Heap T) (given : List (Value T.Class)) (bound total : Nat)
    (s : Stage T) : Prop where
  depth : s.machine.depth = s.frames.length
  room : s.frames.length ≤ config.maxCallDepth
  heap : h.Contained given s.machine.heap
  frames : ∀ frame ∈ s.frames, Reachable h given (.object frame.receiver)
  control : s.control.Known h given
  spent : s.machine.executed + s.control.owed bound (config.maxCallDepth - s.frames.length) +
    owed bound config.maxCallDepth s.frames ≤ total

namespace Kept

variable {config : Config} {h : Heap T} {given : List (Value T.Class)} {bound total : Nat}
  {frames : List Frame} {m : Machine T}

/-- The end of an action of the innermost frame. -/
theorem after {a : Action T (Value T.Class)} (depth : (leaves a m).depth = frames.length)
    (room : frames.length ≤ config.maxCallDepth) (heap : h.Contained given (leaves a m).heap)
    (reached : ∀ frame ∈ frames, Reachable h given (.object frame.receiver))
    (spent : (leaves a m).executed + owed bound config.maxCallDepth frames ≤ total) :
    Kept config h given bound total (Stage.after frames (a m)) := by
  unfold leaves at depth heap spent
  cases ran : a m with
  | ok value here =>
    rw [ran] at depth heap spent
    exact ⟨depth, room, heap, reached, trivial, spent⟩
  | error e here =>
    rw [ran] at depth heap spent
    exact ⟨depth, room, heap, reached, trivial, spent⟩

theorem rebind {control : Control T}
    (kept : Kept config h given bound total ⟨frames, control, m⟩) {later : Heap T}
    (inside : h.Contained given later) :
    Kept config h given bound total ⟨frames, control, { m with heap := later }⟩ :=
  { kept with heap := inside }

/-- A failure gives up what a call was owed. -/
theorem fail {control : Control T}
    (kept : Kept config h given bound total ⟨frames, control, m⟩) (e : Error) :
    Kept config h given bound total ⟨frames, .failed e, m⟩ := by
  refine ⟨kept.depth, kept.room, kept.heap, kept.frames, trivial, ?_⟩
  have spent := kept.spent
  simp only [Control.owed] at spent ⊢
  omega

/-- A new frame takes over what the call was owed: a body is short enough for it, and what it calls
has one frame less. -/
theorem push {receiver : ObjectId} {method : String} {args : List (Value T.Class)}
    (kept : Kept config h given bound total ⟨frames, .calling receiver method args, m⟩)
    (fits : m.depth < config.maxCallDepth) {statements : List Statement}
    (short : statements.length ≤ bound) (value : Value T.Class) :
    Kept config h given bound total
      ⟨⟨receiver, statements⟩ :: frames, .answered value, m.deeper⟩ := by
  obtain ⟨depth, room, heap, reached, ⟨callee, _⟩, spent⟩ := kept
  simp only [Control.owed] at depth room spent
  obtain ⟨fewer, left⟩ : ∃ fewer, config.maxCallDepth - frames.length = fewer + 1 :=
    ⟨config.maxCallDepth - frames.length - 1, by omega⟩
  have taken : statements.length * (1 + most bound fewer) ≤ most bound (fewer + 1) := by
    rw [most_succ]
    exact Nat.mul_le_mul_right _ short
  refine ⟨?_, ?_, heap, List.forall_mem_cons.mpr ⟨callee, reached⟩, trivial, ?_⟩
  · simp only [deeper, List.length_cons]
    omega
  · simp only [List.length_cons]
    omega
  · have room : config.maxCallDepth - (frames.length + 1) = fewer := by omega
    rw [left] at spent
    simp only [Control.owed, owed, deeper, room]
    omega

theorem enter (bodies : h.BodiesWithin given config.mode bound) {receiver : ObjectId}
    {method : String} {args : List (Value T.Class)}
    (kept : Kept config h given bound total ⟨frames, .calling receiver method args, m⟩)
    {body : Method} (found : m.bodyOf receiver method = some body) :
    Kept config h given bound total (Stage.enter config frames receiver body args m) := by
  obtain ⟨callee, plain⟩ := kept.control
  unfold Stage.enter
  split
  · exact kept.fail _
  · next full =>
    cases reads : body.compile config.mode with
    | error e => exact kept.fail e
    | ok statements =>
      obtain ⟨contract, holds, offers⟩ := Option.bind_eq_some_iff.mp found
      have short : statements.length ≤ bound :=
        bodies receiver contract method body statements callee (kept.heap.contract _ ▸ holds)
          offers reads
      have only := bindParams_onlyObjects receiver body.params args m
      have fits : (leaves (bindParams receiver body.params args) m).depth <
          config.maxCallDepth := by
        rw [only]
        exact Nat.lt_of_not_le full
      have rebound : Kept config h given bound total
          ⟨frames, .calling receiver method args,
            leaves (bindParams receiver body.params args) m⟩ := by
        rw [only]
        exact kept.rebind (bindParams_contained kept.heap callee body.params plain)
      unfold leaves at fits rebound
      simp only
      cases ran : bindParams receiver body.params args m with
      | error e here =>
        rw [ran] at rebound
        exact rebound.fail e
      | ok x here =>
        rw [ran] at fits rebound
        exact rebound.push fits short .null

theorem accept (bodies : h.BodiesWithin given config.mode bound) {receiver : ObjectId}
    {method : String} {args : List (Value T.Class)}
    (kept : Kept config h given bound total ⟨frames, .calling receiver method args, m⟩) :
    Kept config h given bound total (Stage.accept config frames receiver method args m) := by
  unfold Stage.accept
  cases found : m.bodyOf receiver method with
  | some body => exact kept.enter bodies found
  | none =>
    obtain ⟨depth, room, heap, reached, ⟨callee, plain⟩, spent⟩ := kept
    simp only [Control.owed] at depth room heap reached spent
    have only := dispatch_nothing_onlyObjects receiver method args m
    refine Kept.after ?_ room (dispatch_nothing_contained heap callee method plain) reached ?_
    · rw [only]
      exact depth
    · rw [only]
      simp only
      omega

theorem leave {frame : Frame} {control left : Control T}
    (kept : Kept config h given bound total ⟨frame :: frames, control, m⟩)
    (plain : left.Known h given) (nothingOwed : ∀ room, left.owed bound room = 0) :
    Kept config h given bound total ⟨frames, left, m.shallower⟩ := by
  obtain ⟨depth, room, heap, reached, -, spent⟩ := kept
  simp only [Stage.owed, List.length_cons] at depth room heap spent
  refine ⟨?_, by simp only; omega, heap, (List.forall_mem_cons.mp reached).2, plain, ?_⟩
  · simp only [shallower]
    omega
  · simp only [shallower, nothingOwed]
    omega

/-- A statement that is begun takes one from what its frame was owed, and its call the rest. -/
theorem begin {receiver : ObjectId} {statement : Statement} {rest : List Statement}
    {value : Value T.Class}
    (kept : Kept config h given bound total
      ⟨⟨receiver, statement :: rest⟩ :: frames, .answered value, m⟩) :
    Kept config h given bound total
      (Stage.begin (⟨receiver, rest⟩ :: frames) receiver m statement) := by
  obtain ⟨depth, room, heap, reached, -, spent⟩ := kept
  simp only [Control.owed, Stage.owed, List.length_cons, Nat.succ_mul] at depth room heap spent
  obtain ⟨self, below⟩ := List.forall_mem_cons.mp reached
  have stand : ∀ frame ∈ (⟨receiver, rest⟩ :: frames : List Frame),
      Reachable h given (.object frame.receiver) := List.forall_mem_cons.mpr ⟨self, below⟩
  rcases begin_cases (⟨receiver, rest⟩ :: frames) receiver m statement with
    ⟨target, method, operands, callee, _, found, calls⟩ | whole
  · have known := heap.object self
    rw [calls]
    refine ⟨depth, room, heap, stand, ⟨known.get? found, ?_⟩, ?_⟩
    · intro arg member
      obtain ⟨operand, _, rfl⟩ := List.mem_map.mp member
      exact known.evaluate operand
    · simp only [Control.owed, Stage.owed, Machine.begun, List.length_cons]
      omega
  · have level : (leaves (step nothing receiver statement) m).depth = m.depth :=
      KeepsDepth.step (fun _ _ _ _ => rfl) receiver statement m
    rw [whole]
    refine Kept.after ?_ room ?_ stand ?_
    · rw [leaves_bind_pure, level]
      exact depth
    · rw [leaves_bind_pure]
      exact step_nothing_contained heap self statement
    · rw [leaves_bind_pure, step_nothing_executed]
      simp only [Stage.owed]
      omega

theorem next (bodies : h.BodiesWithin given config.mode bound) {s t : Stage T}
    (kept : Kept config h given bound total s) (steps : s.next config = some t) :
    Kept config h given bound total t := by
  cases moves_of_next steps with
  | accepts => exact kept.accept bodies
  | begins => exact kept.begin
  | leaves => exact kept.leave trivial fun _ => rfl
  | unwinds => exact kept.leave trivial fun _ => rfl

theorem reaches (bodies : h.BodiesWithin given config.mode bound) {s t : Stage T}
    (kept : Kept config h given bound total s) (run : Reaches config s t) :
    Kept config h given bound total t := by
  induction run with
  | refl => exact kept
  | tail _ steps ih => exact ih.next bodies steps

end Kept

/-- The stage at which a method of an object is called and no method is running. -/
def calls (receiver : ObjectId) (method : String) (args : List (Value T.Class)) (m : Machine T) :
    Stage T :=
  ⟨[], .calling receiver method args, m⟩

/-- The stage calls a method that a contract has, so that the method is executed next. -/
def Enters (s : Stage T) : Prop :=
  ∃ receiver method args body, s.control = .calling receiver method args ∧
    s.machine.bodyOf receiver method = some body

/-- What a limit on nested calls and a total of statements promise of a stage. -/
structure WithinLimits (config : Config) (total : Nat) (s : Stage T) : Prop where
  frames : s.frames.length ≤ config.maxCallDepth
  /-- The machine counts the frames. -/
  depth : s.machine.depth = s.frames.length
  executed : s.machine.executed ≤ total
  /-- With fewer frames than the limit allows, a method is not refused for its depth. -/
  passes : s.Enters → s.frames.length < config.maxCallDepth →
    ∃ t, s.next config = some t ∧ ∀ limit, t.control ≠ .failed (.callDepth limit)
  /-- With as many, it is refused, and nothing is bound. -/
  refuses : s.Enters → s.frames.length = config.maxCallDepth →
    s.next config = some ⟨s.frames, .failed (.callDepth config.maxCallDepth), s.machine⟩

theorem next_of_enters (config : Config) {s : Stage T} {receiver : ObjectId} {method : String}
    {args : List (Value T.Class)} {body : Method}
    (called : s.control = .calling receiver method args)
    (found : s.machine.bodyOf receiver method = some body) :
    s.next config = some (enter config s.frames receiver body args s.machine) := by
  simp only [next, called, accept, found]

/-- Reading a body fails for its text alone, and an instance takes every parameter. So a method that
is not stopped by the limit fails, if at all, for another reason. -/
theorem enter_passes {config : Config} {frames : List Frame} {receiver : ObjectId}
    {method : String} {body : Method} {m : Machine T} (below : m.depth < config.maxCallDepth)
    (found : m.bodyOf receiver method = some body) (args : List (Value T.Class)) (limit : Nat) :
    (enter config frames receiver body args m).control ≠ .failed (.callDepth limit) := by
  unfold enter
  rw [if_neg (Nat.not_le_of_lt below)]
  cases reads : body.compile config.mode with
  | error e =>
    intro stopped
    cases stopped
    rcases Method.compile_error reads with ⟨digits, other⟩ | ⟨index, token, other⟩
    · cases other
    · cases other
  | ok statements =>
    obtain ⟨contract, holds, _⟩ := Option.bind_eq_some_iff.mp found
    cases held : m.heap.lookup receiver with
    | hosted handle written => simp [held, Object.contract?] at holds
    | interpreted contract fields =>
      simp only [bindParams_apply (Heap.lt_size_of_contract? holds) held]
      intro stopped
      cases stopped

theorem Kept.withinLimits {config : Config} {h : Heap T} {given : List (Value T.Class)}
    {bound total : Nat} {s : Stage T} (kept : Kept config h given bound total s) :
    s.WithinLimits config total where
  frames := kept.room
  depth := kept.depth
  executed := by
    have := kept.spent
    omega
  passes := by
    rintro ⟨receiver, method, args, body, called, found⟩ below
    exact ⟨_, next_of_enters config called found,
      enter_passes (kept.depth ▸ below) found args⟩
  refuses := by
    rintro ⟨receiver, method, args, body, called, found⟩ full
    rw [next_of_enters config called found, Stage.enter, if_pos (by rw [kept.depth, full])]

end Stage

namespace Machine

/-- A call from outside ends: its stages lead to the end of the call, where there is no next stage.
At every stage on the way the frames, the statements begun and the refused calls are within the
limits, so that no more statements are begun in all than a bound on the bodies within reach
allows. -/
theorem call_withinLimits (config : Config) (bound : Nat) {m : Machine T} (idle : m.depth = 0)
    (receiver : ObjectId) (method : String) (args : List (Value T.Class))
    (bodies : m.heap.BodiesWithin (.object receiver :: args) config.mode bound) :
    (Stage.calls receiver method args m).Reaches config
        (Stage.after [] (call config receiver method args m)) ∧
      (Stage.after [] (call config receiver method args m)).next config = none ∧
      (leaves (call config receiver method args) m).executed ≤
        m.executed + ∑ i ∈ Finset.range config.maxCallDepth, bound ^ (i + 1) ∧
      ∀ stage, (Stage.calls receiver method args m).Reaches config stage →
        stage.WithinLimits config
          (m.executed + ∑ i ∈ Finset.range config.maxCallDepth, bound ^ (i + 1)) := by
  have kept : Stage.Kept config m.heap (.object receiver :: args) bound
      (m.executed + most bound config.maxCallDepth) (Stage.calls receiver method args m) := by
    refine ⟨idle, Nat.zero_le _, .refl _ _, ?_, ⟨.given List.mem_cons_self, ?_⟩, ?_⟩
    · exact fun frame member => absurd member List.not_mem_nil
    · exact fun arg member => .given (List.mem_cons_of_mem _ member)
    · exact Nat.le_refl _
  have ends := Stage.reaches_call config [] receiver method args m
  have within (stage : Stage T) (run : (Stage.calls receiver method args m).Reaches config stage) :=
    (kept.reaches bodies run).withinLimits
  refine ⟨ends, ?_, ?_, within⟩
  · cases call config receiver method args m <;> rfl
  · have executed := (within _ ends).executed
    unfold leaves
    cases ran : call config receiver method args m with
    | ok value after =>
      rw [ran] at executed
      exact executed
    | error e after =>
      rw [ran] at executed
      exact executed

theorem call_withinLimits_descending :
    descending.depth = 0 ∧ descending.heap.BodiesWithin [.object 0] .strict 2 ∧
    (Stage.calls 0 "main" [] descending).Reaches { maxCallDepth := 3 }
        (Stage.after [] (call { maxCallDepth := 3 } 0 "main" [] descending)) ∧
      (Stage.after [] (call { maxCallDepth := 3 } 0 "main" [] descending)).next
        { maxCallDepth := 3 } = none ∧
      (leaves (call { maxCallDepth := 3 } 0 "main" []) descending).executed ≤
        descending.executed + ∑ i ∈ Finset.range 3, 2 ^ (i + 1) ∧
      ∀ stage, (Stage.calls 0 "main" [] descending).Reaches { maxCallDepth := 3 } stage →
        stage.WithinLimits { maxCallDepth := 3 }
          (descending.executed + ∑ i ∈ Finset.range 3, 2 ^ (i + 1)) := by
  have bodies : descending.heap.BodiesWithin [.object 0] .strict 2 :=
    .of_all (by decide +kernel) _
  exact ⟨rfl, bodies, call_withinLimits { maxCallDepth := 3 } 2 rfl 0 "main" [] bodies⟩

end Machine

end ContractScript
