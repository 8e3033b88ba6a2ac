import ContractScript.Proofs.Machine.Composition
import ContractScript.Proofs.Machine.Frame

/-!
The count of running methods. However an execution ends, in an answer or in an error of any frame,
it leaves the count as it found it. So the frames that an execution has left are known from the
count alone, and executing a method satisfies an equation without them.
-/

namespace ContractScript

open ContractScript.Action

variable {T : Toolkit} {α β : Type}

namespace Action

def KeepsDepth (a : Action T α) : Prop :=
  ∀ m, (leaves a m).depth = m.depth

namespace KeepsDepth

theorem bind {a : Action T α} {f : α → Action T β} (first : KeepsDepth a)
    (rest : ∀ x, KeepsDepth (f x)) : KeepsDepth (a >>= f) := by
  intro m
  apply leaves_bind_of (P := fun after => after.depth = m.depth) (first m)
  intro x here kept
  exact (rest x here).trans kept

theorem nested {a : Action T α} (inner : KeepsDepth a) : KeepsDepth (Machine.nested a) := by
  intro m
  rw [leaves_nested_depth, inner]
  rfl

theorem compositional :
    Machine.Compositional fun {α} (a : Action T α) (_ : Action T α) => KeepsDepth a where
  pure _ := fun _ => rfl
  throw _ := fun _ => rfl
  bind := bind
  object _ := fun _ => rfl
  allocate _ := fun _ => rfl
  update id operation := by
    intro m
    rw [Machine.update_onlyObjects id operation m]
  printLine value := by
    intro m
    rw [Machine.leaves_printLine]
  begin := fun _ => rfl

section

variable {executes : Machine.Execute T}
  (kept : ∀ receiver method args, KeepsDepth (executes receiver method args))

include kept

theorem step (receiver : ObjectId) (statement : Statement) :
    KeepsDepth (Machine.step executes receiver statement) :=
  compositional.step executes executes kept receiver statement

theorem steps (receiver : ObjectId) (statements : List Statement) :
    KeepsDepth (Machine.steps executes receiver statements) :=
  compositional.steps executes executes kept receiver statements

end

end KeepsDepth

end Action

namespace Machine

theorem executeWithin_keepsDepth (config : Config) (frames : Nat) (receiver : ObjectId)
    (method : Method) (args : List (Value T.Class)) :
    KeepsDepth (executeWithin config frames receiver method args) :=
  KeepsDepth.compositional.executeWithin .nested config frames receiver method args

theorem execute_apply (config : Config) (receiver : ObjectId) (method : Method)
    (args : List (Value T.Class)) (m : Machine T) :
    execute config receiver method args m =
      executeWithin config (config.maxCallDepth - m.depth) receiver method args m := rfl

theorem execute_keepsDepth (config : Config) (receiver : ObjectId) (method : Method)
    (args : List (Value T.Class)) : KeepsDepth (execute config receiver method args) := by
  intro m
  rw [leaves_congr (execute_apply config receiver method args m)]
  exact executeWithin_keepsDepth config _ receiver method args m

theorem call_keepsDepth (config : Config) (receiver : ObjectId) (method : String)
    (args : List (Value T.Class)) : KeepsDepth (call config receiver method args) :=
  KeepsDepth.compositional.sequential.dispatch (execute config) (execute config)
    (execute_keepsDepth config) receiver method args

/-- Executes a method without a look at the depth. -/
def enter (config : Config) (receiver : ObjectId) (method : Method)
    (args : List (Value T.Class)) : Action T Unit :=
  match method.compile config.mode with
  | .error e => throw e
  | .ok statements => do
    bindParams receiver method.params args
    nested (steps (execute config) receiver statements)

/-- Two actions that do the same wherever `frames` more methods may run. -/
def AgreeWithin (limit frames : Nat) (a b : Action T α) : Prop :=
  KeepsDepth a ∧ ∀ m, limit - m.depth = frames → a m = b m

theorem AgreeWithin.refl {limit frames : Nat} {a : Action T α} (kept : KeepsDepth a) :
    AgreeWithin limit frames a a :=
  ⟨kept, fun _ _ => rfl⟩

theorem AgreeWithin.bind {limit frames : Nat} {a b : Action T α} {f g : α → Action T β}
    (first : AgreeWithin limit frames a b) (rest : ∀ x, AgreeWithin limit frames (f x) (g x)) :
    AgreeWithin limit frames (a >>= f) (b >>= g) := by
  refine ⟨first.1.bind fun x => (rest x).1, fun m room => ?_⟩
  have same := first.2 m room
  have depth := first.1 m
  simp only [bind_apply, ← same]
  unfold leaves at depth
  cases ran : a m with
  | ok x after =>
    rw [ran] at depth
    exact (rest x).2 after (depth.symm ▸ room)
  | error e after => rfl

theorem AgreeWithin.compositional (limit frames : Nat) :
    Compositional fun {α} (a b : Action T α) => AgreeWithin limit frames a b :=
  .of_refl KeepsDepth.compositional .refl .bind

/-- The equation of execution: at the limit it is refused, and below it the body is run, with the
same equation for the methods that the body calls. -/
theorem execute_eq (config : Config) (receiver : ObjectId) (method : Method)
    (args : List (Value T.Class)) (m : Machine T) :
    execute config receiver method args m =
      if config.maxCallDepth ≤ m.depth then .error (.callDepth config.maxCallDepth) m
      else enter config receiver method args m := by
  rw [execute_apply]
  split
  · next full =>
    rw [Nat.sub_eq_zero_of_le full]
    rfl
  · next room =>
    obtain ⟨frames, left⟩ : ∃ frames, config.maxCallDepth - m.depth = frames + 1 :=
      ⟨config.maxCallDepth - m.depth - 1, by omega⟩
    rw [left]
    unfold executeWithin enter
    cases method.compile config.mode with
    | error e => rfl
    | ok statements =>
      simp only [bind_apply]
      have depth := KeepsDepth.compositional.sequential.bindParams receiver method.params args m
      unfold leaves at depth
      cases bound : bindParams receiver method.params args m with
      | error e after => rfl
      | ok x inside =>
        rw [bound] at depth
        have executes : ∀ receiver method (args : List (Value T.Class)),
            AgreeWithin config.maxCallDepth frames
              (executeWithin config frames receiver method args)
              (execute config receiver method args) := fun receiver method args =>
          ⟨executeWithin_keepsDepth config frames receiver method args, fun m room => by
            rw [execute_apply, room]⟩
        have same := (AgreeWithin.compositional config.maxCallDepth frames).steps _ _ executes
          receiver statements
        have here : steps (executeWithin config frames) receiver statements
            { inside with depth := inside.depth + 1 } =
            steps (execute config) receiver statements
              { inside with depth := inside.depth + 1 } := by
          apply same.2
          simp only at depth ⊢
          omega
        simp only [nested, here]

end Machine

end ContractScript
