import ContractScript.Proofs.Machine.Depth

/-!
One machine that answers many requests. No action reads the count of statements, and a request that
fails leaves the count of running methods as it found it. So a request ends on a machine that
answered others before, failed or not, as it ends on a machine made for it alone.
-/

namespace ContractScript

open ContractScript.Action

variable {T : Toolkit} {α β : Type}

namespace Machine

/-- The machine that has begun some more statements. -/
def ahead (m : Machine T) (count : Nat) : Machine T :=
  { m with executed := m.executed + count }

end Machine

namespace Action

/-- The same end, in a machine that has begun some more statements. -/
def endAhead (count : Nat) :
    EStateM.Result Error (Machine T) α → EStateM.Result Error (Machine T) α
  | .ok x after => .ok x (after.ahead count)
  | .error e after => .error e (after.ahead count)

def IgnoresCount (a : Action T α) : Prop :=
  ∀ m count, a (m.ahead count) = endAhead count (a m)

namespace IgnoresCount

theorem bind {a : Action T α} {f : α → Action T β} (first : IgnoresCount a)
    (rest : ∀ x, IgnoresCount (f x)) : IgnoresCount (a >>= f) := by
  intro m count
  simp only [bind_apply, first m count]
  cases a m with
  | ok x after => exact rest x after count
  | error e after => rfl

theorem nested {a : Action T α} (inner : IgnoresCount a) : IgnoresCount (Machine.nested a) := by
  intro m count
  have deeper := inner { m with depth := m.depth + 1 } count
  simp only [Machine.ahead] at deeper
  simp only [Machine.nested, Machine.ahead, deeper]
  cases a { m with depth := m.depth + 1 } <;> rfl

theorem compositional :
    Machine.Compositional fun {α} (a : Action T α) (_ : Action T α) => IgnoresCount a where
  pure _ := fun _ _ => rfl
  throw _ := fun _ _ => rfl
  bind := bind
  object _ := fun _ _ => rfl
  allocate _ := fun _ _ => rfl
  update id operation := by
    intro m count
    simp only [Machine.update, Machine.ahead]
    cases (operation (m.heap.renderExcept id) (m.heap.lookup id)).1 <;> rfl
  printLine value := by
    intro m count
    simp only [Machine.printLine, Machine.ahead]
    split <;> rfl
  begin := by
    intro m count
    have sum : m.executed + count + 1 = m.executed + 1 + count := Nat.add_right_comm ..
    change EStateM.Result.ok () (m.ahead count).begun = .ok () (m.begun.ahead count)
    simp only [Machine.begun, Machine.ahead, sum]

end IgnoresCount

end Action

namespace Machine

/-- What a machine can be asked for from outside. -/
inductive Request (T : Toolkit) where
  | call (receiver : ObjectId) (method : String) (args : List (Value T.Class))
  | execute (receiver : ObjectId) (method : Method) (args : List (Value T.Class))

/-- What is seen of a request once it has ended: how it ended, the objects and the output that it
left, and how many statements it began. -/
structure Report (T : Toolkit) where
  answer : Except Error (Value T.Class)
  heap : Heap T
  sink : Sink
  counted : Nat

namespace Request

/-- An executed method answers null. -/
def perform (config : Config) : Request T → Action T (Value T.Class)
  | call receiver method args => Machine.call config receiver method args
  | execute receiver method args => do
    Machine.execute config receiver method args
    pure .null

def report (config : Config) (request : Request T) (m : Machine T) : Report T where
  answer :=
    match request.perform config m with
    | .ok value _ => .ok value
    | .error e _ => .error e
  heap := (leaves (request.perform config) m).heap
  sink := (leaves (request.perform config) m).sink
  counted := (leaves (request.perform config) m).executed - m.executed

end Request

/-- The reports of requests that one machine answers in turn. A failed request stops nothing. -/
def session (config : Config) : List (Request T) → Machine T → List (Report T)
  | [], _ => []
  | request :: rest, m =>
    request.report config m :: session config rest (leaves (request.perform config) m)

/-- The reports of requests that are each answered by a machine of its own. Only objects and output
are handed on. -/
def separately (config : Config) : List (Request T) → Heap T → Sink → List (Report T)
  | [], _, _ => []
  | request :: rest, heap, sink =>
    let report := request.report config ⟨heap, sink, 0, 0⟩
    report :: separately config rest report.heap report.sink

theorem execute_ignoresCount (config : Config) (receiver : ObjectId) (method : Method)
    (args : List (Value T.Class)) : IgnoresCount (execute config receiver method args) := by
  intro m count
  exact IgnoresCount.compositional.executeWithin .nested config (config.maxCallDepth - m.depth)
    receiver method args m count

theorem call_ignoresCount (config : Config) (receiver : ObjectId) (method : String)
    (args : List (Value T.Class)) : IgnoresCount (call config receiver method args) :=
  IgnoresCount.compositional.sequential.dispatch (execute config) (execute config)
    (execute_ignoresCount config) receiver method args

namespace Request

theorem perform_keepsDepth (config : Config) (request : Request T) :
    KeepsDepth (request.perform config) := by
  cases request with
  | call receiver method args => exact call_keepsDepth config receiver method args
  | execute receiver method args =>
    exact (execute_keepsDepth config receiver method args).bind fun _ => fun _ => rfl

theorem perform_ignoresCount (config : Config) (request : Request T) :
    IgnoresCount (request.perform config) := by
  cases request with
  | call receiver method args => exact call_ignoresCount config receiver method args
  | execute receiver method args =>
    exact (execute_ignoresCount config receiver method args).bind fun _ => fun _ _ => rfl

theorem leaves_perform_ahead (config : Config) (request : Request T) (m : Machine T)
    (count : Nat) :
    leaves (request.perform config) (m.ahead count) =
      (leaves (request.perform config) m).ahead count := by
  unfold leaves
  rw [request.perform_ignoresCount config m count]
  cases request.perform config m <;> rfl

theorem report_ahead (config : Config) (request : Request T) (m : Machine T) (count : Nat) :
    request.report config (m.ahead count) = request.report config m := by
  unfold report
  rw [leaves_perform_ahead, request.perform_ignoresCount config m count]
  congr 1
  · cases request.perform config m <;> rfl
  · exact Nat.add_sub_add_right ..

end Request

theorem session_eq_separately (config : Config) (requests : List (Request T)) (m : Machine T)
    (idle : m.depth = 0) :
    session config requests m = separately config requests m.heap m.sink := by
  induction requests generalizing m with
  | nil => rfl
  | cons request rest ih =>
    obtain ⟨heap, sink, depth, executed⟩ := m
    obtain rfl : depth = 0 := idle
    have counted : (⟨heap, sink, 0, executed⟩ : Machine T) =
        ahead ⟨heap, sink, 0, 0⟩ executed := by
      simp [ahead]
    have later := request.perform_keepsDepth config ⟨heap, sink, 0, executed⟩
    rw [session, ih _ later, counted, Request.report_ahead, Request.leaves_perform_ahead]
    rfl

/-- Failures leave no trace in a machine: calls and executions keep the count of running methods
however they end, so that each request of a session is answered as by a new machine that is given
the same objects and the same output. -/
theorem session_survives_failures (config : Config) :
    (∀ (m : Machine T) (receiver : ObjectId) (args : List (Value T.Class)),
      (∀ method : String,
        (leaves (call config receiver method args) m).depth = m.depth) ∧
      ∀ method : Method,
        (leaves (execute config receiver method args) m).depth = m.depth) ∧
    ∀ (requests : List (Request T)) (heap : Heap T) (sink : Sink) (executed : Nat),
      session config requests ⟨heap, sink, 0, executed⟩ =
        separately config requests heap sink := by
  constructor
  · intro m receiver args
    exact ⟨fun method => call_keepsDepth config receiver method args m,
      fun method => execute_keepsDepth config receiver method args m⟩
  · intro requests heap sink executed
    exact session_eq_separately config requests ⟨heap, sink, 0, executed⟩ rfl

end Machine

end ContractScript
