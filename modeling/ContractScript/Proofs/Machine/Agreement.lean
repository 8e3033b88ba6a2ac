import ContractScript.Grey
import ContractScript.Program.Reader
import ContractScript.Proofs.Machine.Composition
import ContractScript.Proofs.Statement.Lenient

/-!
Two ways of executing that differ only where the first one fails for a given reason. The relation
passes through sequencing, so it lifts from the execution of one body to statements, to calls and,
by the number of frames, to executions nested to any depth. Main statement: an execution that strict
reading of bodies does not stop is the same execution under lenient reading.
-/

namespace ContractScript

namespace Action

variable {T : Toolkit} {α β : Type}

/-- From every machine the second action ends as the first does, in the same machine, except where
the first ends in an error of the kind. -/
def AgreesUnless (kind : Error → Bool) (a b : Action T α) : Prop :=
  ∀ m, failsBy kind a m = false → b m = a m

namespace AgreesUnless

variable {kind : Error → Bool}

theorem refl (kind : Error → Bool) (a : Action T α) : AgreesUnless kind a a :=
  fun _ _ => rfl

theorem bind {a b : Action T α} {f g : α → Action T β} (first : AgreesUnless kind a b)
    (rest : ∀ x, AgreesUnless kind (f x) (g x)) : AgreesUnless kind (a >>= f) (b >>= g) := by
  intro m fine
  cases ran : a m with
  | ok x after =>
    have same : b m = .ok x after := by
      rw [first m (by simp [failsBy, ran]), ran]
    have fineRest : failsBy kind (f x) after = false := by
      simpa [failsBy, bind_apply, ran] using fine
    simp only [bind_apply, ran, same]
    exact rest x after fineRest
  | error e after =>
    have fineFirst : failsBy kind a m = false := by
      simpa [failsBy, bind_apply, ran] using fine
    simp only [bind_apply, first m fineFirst, ran]

theorem bind_left (a : Action T α) {f g : α → Action T β}
    (rest : ∀ x, AgreesUnless kind (f x) (g x)) : AgreesUnless kind (a >>= f) (a >>= g) :=
  (refl kind a).bind rest

theorem nested {a b : Action T α} (inner : AgreesUnless kind a b) :
    AgreesUnless kind (Machine.nested a) (Machine.nested b) := by
  intro m fine
  rw [failsBy_nested] at fine
  simp only [Machine.nested, inner _ fine]

end AgreesUnless

end Action

namespace Machine

open ContractScript.Action

variable {T : Toolkit} {kind : Error → Bool}

theorem AgreesUnless.compositional (kind : Error → Bool) :
    Compositional fun {α} (a b : Action T α) => AgreesUnless kind a b where
  pure _ := .refl _ _
  throw _ := .refl _ _
  bind := .bind
  object _ := .refl _ _
  allocate _ := .refl _ _
  update _ _ := .refl _ _
  printLine _ := .refl _ _
  begin := .refl _ _

/-- By induction on the frames: a body that strict reading accepts, or refuses for its integers, has
the same statements under lenient reading, and the methods it calls have one frame less. -/
theorem executeWithin_lenient (config : Config) (frames : Nat) (receiver : ObjectId)
    (method : Method) (args : List (Value T.Class)) :
    AgreesUnless Error.isUnrecognized
      (executeWithin { config with mode := .strict } frames receiver method args)
      (executeWithin { config with mode := .lenient } frames receiver method args) := by
  induction frames generalizing receiver method args with
  | zero => exact .refl _ _
  | succ frames ih =>
    unfold executeWithin
    rcases method.compile_lenient with ⟨index, token, stuck⟩ | same
    · intro m fine
      simp only [stuck] at fine
      cases fine
    · simp only [same]
      cases method.compile .strict with
      | error e => exact .refl _ _
      | ok statements =>
        refine .bind_left _ fun _ => .nested ?_
        exact (AgreesUnless.compositional _).steps _ _ ih receiver statements

theorem execute_lenient (config : Config) (receiver : ObjectId) (method : Method)
    (args : List (Value T.Class)) :
    AgreesUnless Error.isUnrecognized
      (execute { config with mode := .strict } receiver method args)
      (execute { config with mode := .lenient } receiver method args) :=
  .bind_left _ fun _ => executeWithin_lenient config _ receiver method args

/-- Calls and executions refine strict reading by lenient reading: where strict reading ends in
anything but an unrecognized statement, in whatever frame, lenient reading ends alike and leaves the
same objects, output and counts. -/
theorem lenient_refines_strict (config : Config) (m : Machine T) (receiver : ObjectId)
    (args : List (Value T.Class)) :
    (∀ method : String,
      failsBy Error.isUnrecognized
          (call { config with mode := .strict } receiver method args) m = false →
        call { config with mode := .lenient } receiver method args m =
          call { config with mode := .strict } receiver method args m) ∧
    (∀ method : Method,
      failsBy Error.isUnrecognized
          (execute { config with mode := .strict } receiver method args) m = false →
        execute { config with mode := .lenient } receiver method args m =
          execute { config with mode := .strict } receiver method args m) := by
  constructor
  · intro method fine
    have executes := execute_lenient (T := T) config
    have agrees := (AgreesUnless.compositional _).sequential.dispatch _ _ executes receiver method
    exact agrees args m fine
  · intro method fine
    exact execute_lenient config receiver method args m fine

/-- A method that greets through the field `me`, and the method that it calls there. -/
def greeter : Contract :=
  ((Contract.named "App").addMethod
      ⟨"main", .exposed, [], "Void", Token.scan "me.greet(\"Ada\"); print(name);"⟩).addMethod
    ⟨"greet", .exposed, ["name"], "Void", Token.scan "print(name); let seen = 7;"⟩

/-- An instance whose field `me` refers to the instance itself. -/
def greeting : Machine Grey.toolkit where
  heap := Heap.empty.push (.interpreted (some greeter) (Table.ofList [("me", .object 0)]))
  sink := .unlimited
  depth := 0
  executed := 0

/-- A method of no contract, which calls back into the instance it runs on. -/
def greetAgain : Method := ⟨"again", .internal, [], "Void", Token.scan "me.main();"⟩

theorem lenient_refines_strict_greeting :
    (failsBy Error.isUnrecognized (call {} 0 "main" []) greeting = false ∧
      call { mode := .lenient } 0 "main" [] greeting = call {} 0 "main" [] greeting) ∧
    (failsBy Error.isUnrecognized (execute {} 0 greetAgain []) greeting = false ∧
      execute { mode := .lenient } 0 greetAgain [] greeting =
        execute {} 0 greetAgain [] greeting) := by
  have calls : failsBy Error.isUnrecognized (call {} 0 "main" []) greeting = false := by
    decide +kernel
  have executes : failsBy Error.isUnrecognized (execute {} 0 greetAgain []) greeting = false := by
    decide +kernel
  exact ⟨⟨calls, (lenient_refines_strict {} greeting 0 []).1 "main" calls⟩,
    ⟨executes, (lenient_refines_strict {} greeting 0 []).2 greetAgain executes⟩⟩

end Machine

end ContractScript
