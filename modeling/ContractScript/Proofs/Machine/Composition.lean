import ContractScript.Proofs.Machine.Outcome
import ContractScript.Run

/-!
Relations between actions that are kept by sequencing. Such a relation, once it holds of the actions
on objects, holds of bindings and of calls; once it holds of all primitive actions, it holds of
statements and of lists of statements too, as far as it holds of the executions that they leave
open. A property of single actions is a relation that looks at one side only.
-/

namespace ContractScript.Machine

variable {T : Toolkit}

/-- How methods are executed: the part of the machine that statements and calls leave open. -/
abbrev Execute (T : Toolkit) : Type := ObjectId → Method → List (Value T.Class) → Action T Unit

/-- The relation holds between every action that asks for objects, makes or changes them, and
itself, and between sequences of related actions. -/
structure Sequential (R : {α : Type} → Action T α → Action T α → Prop) : Prop where
  pure {α : Type} (x : α) : R (pure x) (pure x)
  throw {α : Type} (e : Error) : R (throw e : Action T α) (throw e)
  bind {α β : Type} {a b : Action T α} {f g : α → Action T β} (first : R a b)
    (rest : ∀ x, R (f x) (g x)) : R (a >>= f) (b >>= g)
  object (id : ObjectId) : R (object id) (object id)
  allocate (o : Object T) : R (allocate o) (allocate o)
  update {α : Type} (id : ObjectId)
    (operation : (Value T.Class → String) → Object T → Except Error α × Object T) :
    R (update id operation) (update id operation)

namespace Sequential

variable {R : {α : Type} → Action T α → Action T α → Prop} (kept : Sequential @R)

include kept

theorem setField (id : ObjectId) (name : String) (value : Value T.Class) :
    R (setField id name value) (setField id name value) :=
  kept.update id _

theorem callHost (id : ObjectId) (method : String) (args : List (Value T.Class)) :
    R (callHost id method args) (callHost id method args) :=
  kept.update id _

theorem resolve (receiver : ObjectId) (name : String) :
    R (resolve receiver name) (resolve receiver name) := by
  apply kept.bind (kept.object receiver)
  intro o
  split
  · exact kept.throw _
  · exact kept.throw _
  · exact kept.pure _
  · exact kept.throw _

theorem construct (receiver : ObjectId) (space cls : String) :
    R (construct receiver space cls) (construct receiver space cls) := by
  apply kept.bind (kept.resolve receiver space)
  intro id
  apply kept.bind (kept.object id)
  intro o
  split
  · split
    · exact kept.allocate _
    · exact kept.throw _
  · exact kept.throw _

theorem bindParams (receiver : ObjectId) (params : List String) (args : List (Value T.Class)) :
    R (bindParams receiver params args) (bindParams receiver params args) := by
  induction params generalizing args with
  | nil => exact kept.pure _
  | cons param params ih =>
    apply kept.bind (kept.setField receiver param _)
    exact fun _ => ih args.tail

theorem bindImports (registry : Registry T) (entry : ObjectId) (imports : List (String × String)) :
    R (bindImports registry entry imports) (bindImports registry entry imports) := by
  induction imports with
  | nil => exact kept.pure _
  | cons link imports ih =>
    obtain ⟨localName, module⟩ := link
    unfold Machine.bindImports
    split
    · apply kept.bind (kept.allocate _)
      intro id
      apply kept.bind (kept.setField entry localName _)
      exact fun _ => ih
    · exact ih

theorem dispatch (first second : Execute T)
    (executions : ∀ receiver method args,
      R (first receiver method args) (second receiver method args))
    (receiver : ObjectId) (method : String) (args : List (Value T.Class)) :
    R (dispatch first receiver method args) (dispatch second receiver method args) := by
  apply kept.bind (kept.object receiver)
  intro o
  match o with
  | .hosted .. => exact kept.callHost receiver method args
  | .interpreted none _ => exact kept.throw _
  | .interpreted (some contract) _ =>
    cases found : contract.methods.get? method with
    | none => simpa only [found] using kept.throw _
    | some body =>
      simp only [found]
      exact kept.bind (executions receiver body args) fun _ => kept.pure _

end Sequential

/-- The relation holds between every primitive action and itself, and between sequences of related
actions. -/
structure Compositional (R : {α : Type} → Action T α → Action T α → Prop) : Prop where
  pure {α : Type} (x : α) : R (pure x) (pure x)
  throw {α : Type} (e : Error) : R (throw e : Action T α) (throw e)
  bind {α β : Type} {a b : Action T α} {f g : α → Action T β} (first : R a b)
    (rest : ∀ x, R (f x) (g x)) : R (a >>= f) (b >>= g)
  object (id : ObjectId) : R (object id) (object id)
  allocate (o : Object T) : R (allocate o) (allocate o)
  update {α : Type} (id : ObjectId)
    (operation : (Value T.Class → String) → Object T → Except Error α × Object T) :
    R (update id operation) (update id operation)
  printLine (value : Value T.Class) : R (printLine value) (printLine value)
  begin : R (modify begun) (modify begun)

namespace Compositional

/-- A relation that sequencing keeps, and that holds between an action and itself where the action
has a property that primitive actions have. -/
theorem of_refl {P : {α : Type} → Action T α → Prop}
    {R : {α : Type} → Action T α → Action T α → Prop}
    (unary : Compositional fun {α} (a : Action T α) (_ : Action T α) => P a)
    (refl : ∀ {α : Type} {a : Action T α}, P a → R a a)
    (bind : ∀ {α β : Type} {a b : Action T α} {f g : α → Action T β}, R a b →
      (∀ x, R (f x) (g x)) → R (a >>= f) (b >>= g)) : Compositional @R where
  pure x := refl (unary.pure x)
  throw e := refl (unary.throw e)
  bind := bind
  object id := refl (unary.object id)
  allocate o := refl (unary.allocate o)
  update id operation := refl (unary.update id operation)
  printLine value := refl (unary.printLine value)
  begin := refl unary.begin

variable {R : {α : Type} → Action T α → Action T α → Prop} (kept : Compositional @R)

include kept

theorem sequential : Sequential @R where
  pure := kept.pure
  throw := kept.throw
  bind := kept.bind
  object := kept.object
  allocate := kept.allocate
  update := kept.update

section

variable (first second : Execute T)
  (executions : ∀ receiver method args,
    R (first receiver method args) (second receiver method args))

include executions

theorem step (receiver : ObjectId) (statement : Statement) :
    R (step first receiver statement) (step second receiver statement) := by
  apply kept.bind kept.begin
  intro _
  cases statement with
  | construct target space cls =>
    apply kept.bind (kept.sequential.construct receiver space cls)
    exact fun made => kept.sequential.setField receiver target _
  | call target method args =>
    apply kept.bind (kept.sequential.resolve receiver target)
    intro callee
    apply kept.bind (kept.object receiver)
    intro o
    have calls := kept.sequential.dispatch first second executions callee method
    exact kept.bind (calls _) fun _ => kept.pure _
  | print value =>
    apply kept.bind (kept.object receiver)
    exact fun o => kept.printLine _
  | assign target value =>
    apply kept.bind (kept.object receiver)
    exact fun o => kept.sequential.setField receiver target _

theorem steps (receiver : ObjectId) (statements : List Statement) :
    R (steps first receiver statements) (steps second receiver statements) := by
  induction statements with
  | nil => exact kept.pure _
  | cons statement rest ih =>
    exact kept.bind (kept.step first second executions receiver statement) fun _ => ih

end

/-- By induction on the frames: what a body calls has one frame less. -/
theorem executeWithin (nested : ∀ {a b : Action T Unit}, R a b → R (nested a) (nested b))
    (config : Config) (frames : Nat) (receiver : ObjectId) (method : Method)
    (args : List (Value T.Class)) :
    R (executeWithin config frames receiver method args)
      (executeWithin config frames receiver method args) := by
  induction frames generalizing receiver method args with
  | zero => exact kept.throw _
  | succ frames ih =>
    unfold Machine.executeWithin
    split
    · exact kept.throw _
    · next statements _ =>
      apply kept.bind (kept.sequential.bindParams receiver method.params args)
      exact fun _ => nested (kept.steps _ _ ih receiver statements)

end Compositional

end ContractScript.Machine
