import ContractScript.Proofs.Machine.Outcome
import ContractScript.Run

/-!
Machines that are alike: the same objects, output and counts, but for what the contracts of
instances hold besides their names. No value shows such a difference. So actions that do not enter a
method end alike from machines that are alike.
-/

namespace ContractScript

open ContractScript.Action

variable {T : Toolkit} {α β : Type}

/-- The same object, or instances of contracts with one name. -/
inductive Object.Alike : Object T → Object T → Prop
  | instances (c d : Contract) (fields : Table (Value T.Class)) (named : c.name = d.name) :
      Alike (.interpreted (some c) fields) (.interpreted (some d) fields)
  | space (fields : Table (Value T.Class)) :
      Alike (.interpreted none fields) (.interpreted none fields)
  | host (handle : T.Handle) (written : Table (Value T.Class)) :
      Alike (.hosted handle written) (.hosted handle written)

namespace Object.Alike

variable {o p : Object T}

theorem refl : (o : Object T) → Alike o o
  | .interpreted (some c) fields => .instances c c fields rfl
  | .interpreted none fields => .space fields
  | .hosted handle written => .host handle written

theorem get? (alike : Alike o p) (name : String) : o.get? name = p.get? name := by
  cases alike <;> rfl

theorem describe (alike : Alike o p) : o.describe = p.describe := by
  cases alike with
  | instances c d fields named => simp only [Object.describe, named]
  | space => rfl
  | host => rfl

theorem evaluate (alike : Alike o p) : Machine.evaluate o = Machine.evaluate p := by
  funext operand
  cases operand with
  | name name => simp only [Machine.evaluate, alike.get?]
  | _ => rfl

theorem set (alike : Alike o p) (render : Value T.Class → String) (name : String)
    (value : Value T.Class) :
    (o.set render name value).1 = (p.set render name value).1 ∧
      Alike (o.set render name value).2 (p.set render name value).2 := by
  cases alike with
  | instances c d fields named => exact ⟨rfl, .instances c d _ named⟩
  | space => exact ⟨rfl, .refl _⟩
  | host => exact ⟨rfl, .refl _⟩

theorem callHost (alike : Alike o p) (render : Value T.Class → String) (method : String)
    (args : List (Value T.Class)) :
    (o.callHost render method args).1 = (p.callHost render method args).1 ∧
      Alike (o.callHost render method args).2 (p.callHost render method args).2 := by
  cases alike with
  | instances c d fields named => exact ⟨rfl, .instances c d _ named⟩
  | space => exact ⟨rfl, .refl _⟩
  | host => exact ⟨rfl, .refl _⟩

end Object.Alike

namespace Machine

/-- Nothing that a program prints, stores or counts tells the machines apart. -/
structure Alike (m n : Machine T) : Prop where
  sink : m.sink = n.sink
  depth : m.depth = n.depth
  executed : m.executed = n.executed
  size : m.heap.size = n.heap.size
  objects : ∀ id, (m.heap.lookup id).Alike (n.heap.lookup id)

namespace Alike

variable {m n : Machine T}

theorem render (alike : m.Alike n) : m.heap.render = n.heap.render := by
  funext value
  simp only [Heap.render, fun id => (alike.objects id).describe]

theorem renderExcept (alike : m.Alike n) (busy : ObjectId) :
    m.heap.renderExcept busy = n.heap.renderExcept busy := by
  funext value
  simp only [Heap.renderExcept, fun id => (alike.objects id).describe]

theorem put (alike : m.Alike n) (id : ObjectId) {o p : Object T} (same : o.Alike p) :
    Alike { m with heap := m.heap.put id o } { n with heap := n.heap.put id p } := by
  refine ⟨alike.sink, alike.depth, alike.executed, by simp [alike.size], fun other => ?_⟩
  by_cases live : id < m.heap.size
  · have liveToo : id < n.heap.size := alike.size ▸ live
    rw [Heap.lookup_put _ _ _ _ live, Heap.lookup_put _ _ _ _ liveToo]
    split
    · exact same
    · exact alike.objects other
  · have deadToo : ¬ id < n.heap.size := alike.size ▸ live
    rw [Heap.put_of_size_le _ _ (Nat.le_of_not_lt live),
      Heap.put_of_size_le _ _ (Nat.le_of_not_lt deadToo)]
    exact alike.objects other

theorem push (alike : m.Alike n) {o p : Object T} (same : o.Alike p) :
    Alike { m with heap := m.heap.push o } { n with heap := n.heap.push p } := by
  refine ⟨alike.sink, alike.depth, alike.executed, by simp [alike.size], fun other => ?_⟩
  have next : m.heap.nextId = n.heap.nextId := alike.size
  rw [Heap.lookup_push, Heap.lookup_push, next]
  split
  · exact same
  · exact alike.objects other

theorem begun (alike : m.Alike n) : m.begun.Alike n.begun :=
  ⟨alike.sink, alike.depth, congrArg (· + 1) alike.executed, alike.size, alike.objects⟩

theorem withDepth (alike : m.Alike n) (change : Nat → Nat) :
    Alike { m with depth := change m.depth } { n with depth := change n.depth } :=
  ⟨alike.sink, congrArg change alike.depth, alike.executed, alike.size, alike.objects⟩

end Alike

end Machine

namespace Action

/-- Two ends with the same answer or the same error, in machines that are alike. -/
inductive SameEnd : EStateM.Result Error (Machine T) α → EStateM.Result Error (Machine T) α → Prop
  | ok {x m n} (alike : m.Alike n) : SameEnd (.ok x m) (.ok x n)
  | error {e m n} (alike : m.Alike n) : SameEnd (.error e m) (.error e n)

theorem SameEnd.exists_ok {r s : EStateM.Result Error (Machine T) α} (same : SameEnd r s) {x : α}
    {m : Machine T} (ran : r = .ok x m) : ∃ n, s = .ok x n ∧ m.Alike n := by
  subst ran
  cases same with
  | ok alike => exact ⟨_, rfl, alike⟩

/-- From machines that are alike the action ends alike. -/
def Respects (a : Action T α) : Prop :=
  ∀ m n, m.Alike n → SameEnd (a m) (a n)

/-- The ends of a sequence are the same when its first ends are, and whatever follows an answer. -/
theorem SameEnd.bind {a b : Action T α} {f g : α → Action T β} {m n : Machine T}
    (first : SameEnd (a m) (b n))
    (rest : ∀ x after later, a m = .ok x after → b n = .ok x later → after.Alike later →
      SameEnd (f x after) (g x later)) : SameEnd ((a >>= f) m) ((b >>= g) n) := by
  simp only [bind_apply]
  generalize ran : a m = r at first
  generalize ranToo : b n = s at first
  cases first with
  | ok alike => exact rest _ _ _ ran ranToo alike
  | error alike => exact .error alike

namespace Respects

theorem pure (x : α) : Respects (pure x : Action T α) := fun _ _ alike => .ok alike

theorem throw (e : Error) : Respects (throw e : Action T α) := fun _ _ alike => .error alike

theorem bind {a : Action T α} {f : α → Action T β} (first : Respects a)
    (rest : ∀ x, Respects (f x)) : Respects (a >>= f) := by
  intro m n alike
  apply SameEnd.bind (first m n alike)
  intro x after later _ _ like
  exact rest x after later like

/-- What reads an object may use what objects that are alike have in common. -/
theorem object_bind {f : Object T → Action T β} (id : ObjectId)
    (common : ∀ o p : Object T, o.Alike p → f o = f p) (rest : ∀ o, Respects (f o)) :
    Respects (Machine.object id >>= f) := by
  intro m n alike
  simp only [bind_apply, Machine.object_apply]
  rw [common _ _ (alike.objects id)]
  exact rest _ m n alike

end Respects

theorem SameEnd.nested {a b : Action T α} {m n : Machine T}
    (inner : SameEnd (a { m with depth := m.depth + 1 }) (b { n with depth := n.depth + 1 })) :
    SameEnd (Machine.nested a m) (Machine.nested b n) := by
  simp only [Machine.nested]
  generalize a { m with depth := m.depth + 1 } = r at inner
  generalize b { n with depth := n.depth + 1 } = s at inner
  cases inner with
  | ok alike => exact .ok (alike.withDepth (· - 1))
  | error alike => exact .error (alike.withDepth (· - 1))

end Action

namespace Machine

theorem update_respects (id : ObjectId)
    {operation : (Value T.Class → String) → Object T → Except Error α × Object T}
    (common : ∀ render o p, o.Alike p → (operation render o).1 = (operation render p).1 ∧
      (operation render o).2.Alike (operation render p).2) : Respects (update id operation) := by
  intro m n alike
  -- the operation may ask for texts of values, and those show only the names of contracts
  obtain ⟨result, changed⟩ := common (m.heap.renderExcept id) _ _ (alike.objects id)
  have after := alike.put id changed
  rw [alike.renderExcept] at result after
  simp only [update, alike.renderExcept, result]
  split
  · exact .ok after
  · exact .error after

theorem setField_respects (id : ObjectId) (name : String) (value : Value T.Class) :
    Respects (setField id name value) :=
  update_respects id fun render _ _ alike => alike.set render name value

theorem callHost_respects (id : ObjectId) (method : String) (args : List (Value T.Class)) :
    Respects (callHost id method args) :=
  update_respects id fun render _ _ alike => alike.callHost render method args

theorem allocate_respects (o : Object T) : Respects (allocate o) := by
  intro m n alike
  have next : m.heap.nextId = n.heap.nextId := alike.size
  rw [allocate_apply, allocate_apply, next]
  exact .ok (alike.push (.refl o))

theorem printLine_respects (value : Value T.Class) : Respects (printLine value) := by
  intro m n alike
  simp only [printLine, alike.render, alike.sink]
  split
  · exact .ok ⟨rfl, alike.depth, alike.executed, alike.size, alike.objects⟩
  · exact .error ⟨rfl, alike.depth, alike.executed, alike.size, alike.objects⟩

theorem resolve_respects (receiver : ObjectId) (name : String) :
    Respects (resolve receiver name : Action T _) := by
  apply Respects.object_bind
  · intro o p alike
    rw [alike.get?]
  · intro o
    split
    · exact .throw _
    · exact .throw _
    · exact .pure _
    · exact .throw _

theorem construct_respects (receiver : ObjectId) (space cls : String) :
    Respects (construct receiver space cls : Action T _) := by
  apply Respects.bind (resolve_respects receiver space)
  intro id
  apply Respects.object_bind
  · intro o p alike
    rw [alike.get?]
  · intro o
    split
    · split
      · exact allocate_respects _
      · exact .throw _
    · exact .throw _

theorem bindParams_respects (receiver : ObjectId) (params : List String)
    (args : List (Value T.Class)) : Respects (bindParams receiver params args) := by
  induction params generalizing args with
  | nil => exact .pure _
  | cons param params ih =>
    apply Respects.bind (setField_respects receiver param _)
    exact fun _ => ih args.tail

theorem bindImports_respects (registry : Registry T) (entry : ObjectId)
    (imports : List (String × String)) : Respects (bindImports registry entry imports) := by
  induction imports with
  | nil => exact .pure _
  | cons link imports ih =>
    obtain ⟨localName, module⟩ := link
    unfold bindImports
    split
    · apply Respects.bind (allocate_respects _)
      intro id
      apply Respects.bind (setField_respects entry localName _)
      exact fun _ => ih
    · exact ih

/-- A call on anything but an instance has no use for contracts, and it enters no method. -/
theorem dispatch_sameEnd (execute execute' : ObjectId → Method → List (Value T.Class) →
    Action T Unit) {callee : ObjectId} {m n : Machine T} (alike : m.Alike n)
    (outside : (m.heap.lookup callee).contract? = none) (method : String)
    (args : List (Value T.Class)) :
    SameEnd (dispatch execute callee method args m) (dispatch execute' callee method args n) := by
  have called := callHost_respects callee method args m n alike
  have same := alike.objects callee
  simp only [dispatch, bind_apply, object_apply]
  generalize m.heap.lookup callee = o at outside same
  generalize n.heap.lookup callee = p at same
  cases same with
  | instances => cases outside
  | space => exact .error alike
  | host => exact called

end Machine

end ContractScript
