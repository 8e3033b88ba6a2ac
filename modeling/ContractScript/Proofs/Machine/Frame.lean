import ContractScript.Proofs.Machine.Composition

/-!
What actions leave alone. Most actions change objects at most; output, depth and the count of
statements belong to few.
-/

namespace ContractScript

variable {T : Toolkit} {α β : Type}

namespace Action

/-- However the action ends, no more than objects are changed. -/
def OnlyObjects (a : Action T α) : Prop :=
  ∀ m, leaves a m = { m with heap := (leaves a m).heap }

namespace OnlyObjects

theorem pure (x : α) : OnlyObjects (pure x : Action T α) := fun _ => rfl

theorem throw (e : Error) : OnlyObjects (throw e : Action T α) := fun _ => rfl

theorem bind {a : Action T α} {f : α → Action T β} (first : OnlyObjects a)
    (rest : ∀ x, OnlyObjects (f x)) : OnlyObjects (a >>= f) := by
  intro m
  apply leaves_bind_of (P := fun after => after = { m with heap := after.heap }) (first m)
  intro x here kept
  rw [rest x here, kept]

end OnlyObjects

end Action

namespace Machine

open ContractScript.Action

theorem object_onlyObjects (id : ObjectId) : OnlyObjects (object id : Action T _) :=
  fun _ => rfl

theorem allocate_onlyObjects (o : Object T) : OnlyObjects (allocate o) := fun _ => rfl

theorem update_onlyObjects (id : ObjectId)
    (operation : (Value T.Class → String) → Object T → Except Error α × Object T) :
    OnlyObjects (update id operation) := by
  intro m
  unfold leaves update
  simp only
  cases (operation (m.heap.renderExcept id) (m.heap.lookup id)).1 <;> rfl

theorem onlyObjects_sequential :
    Sequential fun {α} (a : Action T α) (_ : Action T α) => OnlyObjects a where
  pure := .pure
  throw := .throw
  bind := .bind
  object := object_onlyObjects
  allocate := allocate_onlyObjects
  update := update_onlyObjects

theorem setField_onlyObjects (id : ObjectId) (name : String) (value : Value T.Class) :
    OnlyObjects (setField id name value) := onlyObjects_sequential.setField id name value

theorem callHost_onlyObjects (id : ObjectId) (method : String) (args : List (Value T.Class)) :
    OnlyObjects (callHost id method args) := onlyObjects_sequential.callHost id method args

theorem bindParams_onlyObjects (receiver : ObjectId) (params : List String)
    (args : List (Value T.Class)) : OnlyObjects (bindParams receiver params args) :=
  onlyObjects_sequential.bindParams receiver params args

theorem bindImports_onlyObjects (registry : Registry T) (entry : ObjectId)
    (imports : List (String × String)) : OnlyObjects (bindImports registry entry imports) :=
  onlyObjects_sequential.bindImports registry entry imports

/-- Beyond its count, a statement that neither calls nor prints changes objects at most. -/
theorem step_onlyObjects (executes : ObjectId → Method → List (Value T.Class) → Action T Unit)
    (receiver : ObjectId) {statement : Statement}
    (plain : ∀ target method operands, statement ≠ .call target method operands)
    (silent : ∀ value, statement ≠ .print value) (m : Machine T) :
    leaves (step executes receiver statement) m =
      { m.begun with heap := (leaves (step executes receiver statement) m).heap } := by
  rw [leaves_congr (step_apply executes receiver statement m)]
  cases statement with
  | construct target space cls =>
    have only : OnlyObjects (construct receiver space cls >>= fun made =>
        setField (T := T) receiver target (.object made)) :=
      (onlyObjects_sequential.construct receiver space cls).bind fun _ => setField_onlyObjects _ _ _
    exact only m.begun
  | assign target value =>
    have only : OnlyObjects (object receiver >>= fun o =>
        setField (T := T) receiver target (evaluate o value)) :=
      (object_onlyObjects receiver).bind fun _ => setField_onlyObjects _ _ _
    exact only m.begun
  | call target method operands => exact absurd rfl (plain target method operands)
  | print value => exact absurd rfl (silent value)

/-- A statement is counted once, however it ends, if the call that it may make counts none. -/
theorem step_executed (executes : ObjectId → Method → List (Value T.Class) → Action T Unit)
    (receiver : ObjectId) (statement : Statement) (m : Machine T)
    (uncounted : ∀ target method operands callee, statement = .call target method operands →
      resolve receiver target m.begun = .ok callee m.begun →
      (leaves (dispatch executes callee method
        (operands.map (evaluate (m.begun.heap.lookup receiver)))) m.begun).executed =
          m.begun.executed) :
    (leaves (step executes receiver statement) m).executed = m.executed + 1 := by
  cases statement with
  | construct | assign =>
    rw [step_onlyObjects executes receiver (by simp) (by simp)]
    rfl
  | call target method operands =>
    rw [leaves_congr (step_apply executes receiver _ m), leaves_bind]
    rcases resolve_cases receiver target m.begun with ⟨callee, _, ran⟩ | ⟨e, ran⟩
    · simp only [ran]
      rw [leaves_bind, object_apply]
      simp only
      rw [leaves_bind_pure, uncounted target method operands callee rfl ran]
      rfl
    · simp only [ran]
      rfl
  | print value =>
    rw [leaves_congr (step_apply executes receiver _ m), leaves_bind, object_apply]
    simp only
    rw [leaves_printLine]
    rfl

end Machine

end ContractScript
