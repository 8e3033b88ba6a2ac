import ContractScript.Machine

/-!
How actions end. `Ends` says what holds of the machine that an action leaves, with its answer or its
error; a sequence is followed from one action to the next, and each primitive action has an equation
of its own. Nothing after these equations opens an action.
-/

namespace ContractScript

/-- What a statement may report that enters no method. -/
def Error.ofStatement : Error → Bool
  | undefinedReference _ | notCallable _ | notAnObject _ | noMember .. | noContract _ | host _
  | output _ => true
  | _ => false

namespace Action

variable {T : Toolkit} {α β : Type}

/-- The machine that an action leaves, however it ends. -/
def leaves (a : Action T α) (m : Machine T) : Machine T :=
  match a m with
  | .ok _ after => after
  | .error _ after => after

/-- Whether an action begun in `m` ends in an error of a kind. -/
def failsBy (kind : Error → Bool) (a : Action T α) (m : Machine T) : Bool :=
  match a m with
  | .ok .. => false
  | .error e _ => kind e

theorem exists_error_of_failsBy {kind : Error → Bool} {a : Action T α} {m : Machine T}
    (fails : failsBy kind a m = true) : ∃ e after, a m = .error e after ∧ kind e = true := by
  unfold failsBy at fails
  split at fails
  · cases fails
  · next e after ran => exact ⟨e, after, ran, fails⟩

/-- From `m` the action returns as the first predicate says or fails as the second says. -/
def Ends (a : Action T α) (m : Machine T) (returns : α → Machine T → Prop)
    (fails : Error → Machine T → Prop) : Prop :=
  match a m with
  | .ok x after => returns x after
  | .error e after => fails e after

theorem bind_apply (a : Action T α) (f : α → Action T β) (m : Machine T) :
    (a >>= f) m = match a m with
      | .ok x after => f x after
      | .error e after => .error e after := by
  simp only [Bind.bind, EStateM.bind]
  cases a m <;> rfl

theorem bind_eq_ok {a : Action T α} {f : α → Action T β} {m after : Machine T} {y : β}
    (ran : (a >>= f) m = .ok y after) : ∃ x there, a m = .ok x there ∧ f x there = .ok y after := by
  rw [bind_apply] at ran
  cases first : a m with
  | ok x there => exact ⟨x, there, rfl, by simpa [first] using ran⟩
  | error e there => simp [first] at ran

theorem bind_eq_error {a : Action T α} {f : α → Action T β} {m after : Machine T} {e : Error}
    (failed : (a >>= f) m = .error e after) :
    a m = .error e after ∨ ∃ x there, a m = .ok x there ∧ f x there = .error e after := by
  rw [bind_apply] at failed
  cases first : a m with
  | ok x there => exact .inr ⟨x, there, rfl, by simpa [first] using failed⟩
  | error e' there => exact .inl (by simpa [first] using failed)

theorem leaves_of_ok {a : Action T α} {x : α} {m after : Machine T} (ran : a m = .ok x after) :
    leaves a m = after := by
  simp only [leaves, ran]

theorem leaves_of_error {a : Action T α} {e : Error} {m after : Machine T}
    (failed : a m = .error e after) : leaves a m = after := by
  simp only [leaves, failed]

theorem leaves_bind (a : Action T α) (f : α → Action T β) (m : Machine T) :
    leaves (a >>= f) m = match a m with
      | .ok x after => leaves (f x) after
      | .error _ after => after := by
  unfold leaves
  rw [bind_apply]
  cases a m <;> rfl

/-- What holds of the machine after an action, and is kept by what follows, holds at the end. -/
theorem leaves_bind_of {P : Machine T → Prop} {a : Action T α} {f : α → Action T β} {m : Machine T}
    (first : P (leaves a m)) (rest : ∀ x here, P here → P (leaves (f x) here)) :
    P (leaves (a >>= f) m) := by
  rw [leaves_bind]
  unfold leaves at first
  cases ran : a m with
  | ok x here =>
    rw [ran] at first
    exact rest x here first
  | error e here =>
    rw [ran] at first
    exact first

theorem leaves_bind_pure (a : Action T α) (f : α → β) (m : Machine T) :
    leaves (a >>= fun x => pure (f x)) m = leaves a m := by
  rw [leaves_bind]
  unfold leaves
  cases a m <;> rfl

theorem leaves_congr {a b : Action T α} {m m' : Machine T} (same : a m = b m') :
    leaves a m = leaves b m' := by
  unfold leaves
  rw [same]

theorem nested_eq_ok {a : Action T α} {m after : Machine T} {x : α}
    (ran : Machine.nested a m = .ok x after) :
    ∃ last, a { m with depth := m.depth + 1 } = .ok x last ∧
      after = { last with depth := last.depth - 1 } := by
  unfold Machine.nested at ran
  split at ran
  · next inner =>
    cases ran
    exact ⟨_, inner, rfl⟩
  · cases ran

theorem nested_eq_error {a : Action T α} {m after : Machine T} {e : Error}
    (failed : Machine.nested a m = .error e after) :
    ∃ last, a { m with depth := m.depth + 1 } = .error e last ∧
      after = { last with depth := last.depth - 1 } := by
  unfold Machine.nested at failed
  split at failed
  · cases failed
  · next inner =>
    cases failed
    exact ⟨_, inner, rfl⟩

theorem leaves_nested_heap (a : Action T α) (m : Machine T) :
    (leaves (Machine.nested a) m).heap = (leaves a { m with depth := m.depth + 1 }).heap := by
  unfold leaves Machine.nested
  cases a { m with depth := m.depth + 1 } <;> rfl

theorem leaves_nested_sink (a : Action T α) (m : Machine T) :
    (leaves (Machine.nested a) m).sink = (leaves a { m with depth := m.depth + 1 }).sink := by
  unfold leaves Machine.nested
  cases a { m with depth := m.depth + 1 } <;> rfl

theorem failsBy_nested (kind : Error → Bool) (a : Action T α) (m : Machine T) :
    failsBy kind (Machine.nested a) m = failsBy kind a { m with depth := m.depth + 1 } := by
  unfold failsBy Machine.nested
  cases a { m with depth := m.depth + 1 } <;> rfl

theorem leaves_nested_depth (a : Action T α) (m : Machine T) :
    (leaves (Machine.nested a) m).depth =
      (leaves a { m with depth := m.depth + 1 }).depth - 1 := by
  unfold leaves Machine.nested
  cases a { m with depth := m.depth + 1 } <;> rfl

theorem Ends.mono {returns returns' : β → Machine T → Prop}
    {fails fails' : Error → Machine T → Prop} {a : Action T β} {m : Machine T}
    (ends : Ends a m returns fails)
    (answer : ∀ x after, returns x after → returns' x after)
    (failure : ∀ e after, fails e after → fails' e after) : Ends a m returns' fails' := by
  unfold Ends at ends ⊢
  cases ran : a m with
  | ok x after => exact answer x after (by simpa [ran] using ends)
  | error e after => exact failure e after (by simpa [ran] using ends)

end Action

namespace Machine

open ContractScript.Action

variable {T : Toolkit}

def begun (m : Machine T) : Machine T := { m with executed := m.executed + 1 }

theorem object_apply (id : ObjectId) (m : Machine T) : object id m = .ok (m.heap.lookup id) m :=
  rfl

theorem allocate_apply (o : Object T) (m : Machine T) :
    allocate o m = .ok m.heap.nextId { m with heap := m.heap.push o } := rfl

theorem resolve_apply (receiver : ObjectId) (name : String) (m : Machine T) :
    resolve receiver name m =
      match (m.heap.lookup receiver).get? name with
      | none | some .null => .error (.undefinedReference name) m
      | some (.object id) => .ok id m
      | some _ => .error (.notAnObject name) m := by
  simp only [resolve, bind_apply, object_apply]
  cases (m.heap.lookup receiver).get? name with
  | none => rfl
  | some value => cases value <;> rfl

theorem resolve_cases (receiver : ObjectId) (name : String) (m : Machine T) :
    (∃ id, (m.heap.lookup receiver).get? name = some (.object id) ∧
      resolve receiver name m = .ok id m) ∨
    ∃ e, resolve receiver name m = .error e m := by
  rw [resolve_apply]
  cases (m.heap.lookup receiver).get? name with
  | none => exact .inr ⟨_, rfl⟩
  | some value =>
    cases value with
    | object id => exact .inl ⟨id, rfl, rfl⟩
    | _ => exact .inr ⟨_, rfl⟩

theorem resolve_error {receiver : ObjectId} {name : String} {m after : Machine T} {e : Error}
    (failed : resolve receiver name m = .error e after) : e.ofStatement = true := by
  rw [resolve_apply] at failed
  split at failed <;> cases failed <;> rfl

theorem construct_apply (receiver : ObjectId) (space cls : String) (m : Machine T) :
    construct receiver space cls m =
      match resolve receiver space m with
      | .error e after => .error e after
      | .ok id after =>
        match (after.heap.lookup id).get? cls with
        | some (.cls c) =>
          match T.construct c.cls with
          | .ok handle =>
            .ok after.heap.nextId { after with heap := after.heap.push (.ofHandle handle) }
          | .error e => .error e after
        | _ => .error (.notCallable cls) after := by
  simp only [construct, bind_apply, object_apply]
  cases resolve receiver space m with
  | error e after => rfl
  | ok id after =>
    simp only
    cases (after.heap.lookup id).get? cls with
    | none => rfl
    | some value =>
      cases value with
      | cls c =>
        simp only
        cases T.construct c.cls <;> rfl
      | _ => rfl

/-- A construction makes an object of a class that a field of the receiver offers. When it fails it
changes nothing, and it has been refused by a name or by the class. -/
theorem construct_ends (receiver : ObjectId) (space cls : String) (m : Machine T) :
    Ends (construct receiver space cls) m
      (fun made after => ∃ holder c handle,
        (m.heap.lookup receiver).get? space = some (.object holder) ∧
        (m.heap.lookup holder).get? cls = some (.cls c) ∧ T.construct c.cls = .ok handle ∧
        made = m.heap.nextId ∧ after = { m with heap := m.heap.push (.ofHandle handle) })
      (fun e after => after = m ∧ (e.ofStatement = true ∨ ∃ holder c,
        (m.heap.lookup receiver).get? space = some (.object holder) ∧
        (m.heap.lookup holder).get? cls = some (.cls c) ∧ T.construct c.cls = .error e)) := by
  unfold Ends
  rw [construct_apply]
  rcases resolve_cases receiver space m with ⟨holder, found, ran⟩ | ⟨e, ran⟩
  · simp only [ran]
    cases offers : (m.heap.lookup holder).get? cls with
    | none => exact ⟨rfl, .inl rfl⟩
    | some value =>
      cases value with
      | cls c =>
        simp only
        cases made : T.construct c.cls with
        | ok handle => exact ⟨holder, c, handle, found, offers, made, rfl, rfl⟩
        | error e => exact ⟨rfl, .inr ⟨holder, c, found, offers, made⟩⟩
      | _ => exact ⟨rfl, .inl rfl⟩
  · rw [ran]
    exact ⟨rfl, .inl (resolve_error ran)⟩

/-- Interpreted objects take every field. -/
theorem setField_apply {id : ObjectId} {m : Machine T} {contract : Option Contract}
    {fields : Table (Value T.Class)} (found : m.heap.lookup id = .interpreted contract fields)
    (name : String) (value : Value T.Class) :
    setField id name value m =
      .ok () { m with
        heap := m.heap.put id (.interpreted contract (fields.insert name value)) } := by
  simp [setField, update, found, Object.set]

theorem leaves_printLine (value : Value T.Class) (m : Machine T) :
    leaves (printLine value) m = { m with sink := (leaves (printLine value) m).sink } := by
  unfold leaves printLine
  simp only
  split <;> rename_i ran <;> split at ran <;> cases ran <;> rfl

theorem leaves_update_heap {α : Type} (id : ObjectId)
    (operation : (Value T.Class → String) → Object T → Except Error α × Object T)
    (m : Machine T) :
    (leaves (update id operation) m).heap =
      m.heap.put id (operation (m.heap.renderExcept id) (m.heap.lookup id)).2 := by
  unfold leaves update
  simp only
  split <;> rename_i ran <;> split at ran <;> cases ran <;> rfl

/-- A call on a host object fails as the toolkit does, or for want of a member. -/
theorem callHost_eq_error {render : Value T.Class → String} {handle : T.Handle}
    {written : Table (Value T.Class)} {method : String} {args : List (Value T.Class)} {e : Error}
    (refused : (Object.callHost render method args (.hosted handle written)).1 = .error e) :
    (∃ value, (T.set render handle method value).1 = .error e) ∨
      (T.invoke render handle method args).1 = .error e ∨
      e = .noMember method (T.handleClass handle) := by
  simp only [Object.callHost] at refused
  split at refused
  · next value _ => exact .inl ⟨value, Except.map_eq_error_iff.mp refused⟩
  · exact .inr (.inl refused)
  · cases refused
    exact .inr (.inr rfl)

/-- A call on a host object changes its handle by one operation of the toolkit, if at all. -/
theorem callHost_heap {id : ObjectId} {m : Machine T} {handle : T.Handle}
    {written : Table (Value T.Class)} (found : m.heap.lookup id = .hosted handle written)
    (method : String) (args : List (Value T.Class)) :
    ∃ changed, (leaves (callHost id method args) m).heap = m.heap.put id (.hosted changed written) ∧
      (changed = handle ∨
        (∃ render value, args = [value] ∧ changed = (T.set render handle method value).2) ∨
        ∃ render, changed = (T.invoke render handle method args).2) := by
  have heap := leaves_update_heap id (fun render o => o.callHost render method args) m
  rw [found] at heap
  unfold callHost
  rw [heap]
  simp only [Object.callHost]
  split
  · next value property => exact ⟨_, rfl, .inr (.inl ⟨_, value, rfl, rfl⟩)⟩
  · exact ⟨_, rfl, .inr (.inr ⟨_, rfl⟩)⟩
  · exact ⟨handle, rfl, .inl rfl⟩

theorem step_apply (execute : ObjectId → Method → List (Value T.Class) → Action T Unit)
    (receiver : ObjectId) (statement : Statement) (m : Machine T) :
    step execute receiver statement m =
      (match statement with
        | .construct target space cls => do
          let made ← construct receiver space cls
          setField receiver target (.object made)
        | .call target method args => do
          let callee ← resolve receiver target
          let o ← object receiver
          let _ ← dispatch execute callee method (args.map (evaluate o))
        | .print value => do
          let o ← object receiver
          printLine (evaluate o value)
        | .assign target value => do
          let o ← object receiver
          setField receiver target (evaluate o value) : Action T Unit) m.begun := by
  cases statement <;> rfl

variable {execute : ObjectId → Method → List (Value T.Class) → Action T Unit}
  {receiver : ObjectId} {statements : List Statement} {m : Machine T}

theorem steps_append (front back : List Statement) :
    steps execute receiver (front ++ back) m =
      (steps execute receiver front >>= fun _ => steps execute receiver back) m := by
  induction front generalizing m with
  | nil => rfl
  | cons statement front ih =>
    simp only [List.cons_append, steps, bind_apply]
    cases step execute receiver statement m with
    | ok x here =>
      simp only
      rw [ih, bind_apply]
    | error e here => rfl

/-- Begun in `m`, the statements fail at place `k`: those before it run, and lead to `here`, from
where it fails and leaves `last`. -/
structure FailsAt (execute : ObjectId → Method → List (Value T.Class) → Action T Unit)
    (receiver : ObjectId) (statements : List Statement) (m : Machine T) (k : Nat) (e : Error)
    (here last : Machine T) : Prop where
  ran : steps execute receiver (statements.take k) m = .ok () here
  failed : ∃ statement, statements[k]? = some statement ∧
    step execute receiver statement here = .error e last

theorem exists_failsAt {e : Error} {last : Machine T}
    (failed : steps execute receiver statements m = .error e last) :
    ∃ k here, FailsAt execute receiver statements m k e here last := by
  induction statements generalizing m with
  | nil => cases failed
  | cons statement rest ih =>
    rcases bind_eq_error failed with stopped | ⟨_, there, ran, later⟩
    · exact ⟨0, m, rfl, statement, rfl, stopped⟩
    · obtain ⟨k, here, reached, stopped⟩ := ih later
      refine ⟨k + 1, here, ?_, stopped⟩
      simp only [List.take_succ_cons, steps, bind_apply, ran]
      exact reached

end Machine

end ContractScript
