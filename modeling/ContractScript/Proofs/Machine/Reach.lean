import ContractScript.Proofs.Machine.Outcome

/-!
What a run can get at. From the values it is given a run goes on to the fields of objects, to what
host objects answer, and to the objects that it makes itself. As long as only such objects change,
and change by what is at hand, everything at hand later was at hand before, and no object gets
another contract.
-/

namespace ContractScript

open ContractScript.Action Machine

variable {T : Toolkit}

mutual

/-- A run that starts with a heap and some values can get at the value. -/
inductive Reachable (h : Heap T) (given : List (Value T.Class)) : Value T.Class → Prop
  | given {value} (member : value ∈ given) : Reachable h given value
  | null : Reachable h given .null
  | integer (n : Int64) : Reachable h given (.integer n)
  | text (contents : String) : Reachable h given (.text contents)
  /-- The run may make the object. -/
  | later {id} (outside : h.size ≤ id) : Reachable h given (.object id)
  | field {id name value} (owner : Reachable h given (.object id))
      (holds : (h.lookup id).fields.get? name = some value) : Reachable h given value
  | attribute {handle name value} (owner : ReachableHandle h given handle)
      (answers : T.get handle name = some value) : Reachable h given value
  | result {handle render method args value} (owner : ReachableHandle h given handle)
      (known : ∀ arg ∈ args, Reachable h given arg)
      (answers : (T.invoke render handle method args).1 = .ok value) : Reachable h given value

/-- The run can get a host object into the state that the handle is. -/
inductive ReachableHandle (h : Heap T) (given : List (Value T.Class)) : T.Handle → Prop
  | held {id handle} (owner : Reachable h given (.object id))
      (holds : (h.lookup id).handle? = some handle) : ReachableHandle h given handle
  | constructed {c handle} (known : Reachable h given (.cls c))
      (made : T.construct c.cls = .ok handle) : ReachableHandle h given handle
  | set {render handle name value} (owner : ReachableHandle h given handle)
      (known : Reachable h given value) : ReachableHandle h given (T.set render handle name value).2
  | invoked {render handle method args} (owner : ReachableHandle h given handle)
      (known : ∀ arg ∈ args, Reachable h given arg) :
      ReachableHandle h given (T.invoke render handle method args).2

end

namespace Object

/-- What the object holds is within reach. -/
structure Known (h : Heap T) (given : List (Value T.Class)) (o : Object T) : Prop where
  field : ∀ {name value}, o.fields.get? name = some value → Reachable h given value
  handle : ∀ {handle}, o.handle? = some handle → ReachableHandle h given handle

theorem contract?_set (o : Object T) (render : Value T.Class → String) (name : String)
    (value : Value T.Class) : (o.set render name value).2.contract? = o.contract? := by
  cases o <;> rfl

theorem contract?_callHost (o : Object T) (render : Value T.Class → String) (method : String)
    (args : List (Value T.Class)) :
    (o.callHost render method args).2.contract? = o.contract? := by
  cases o with
  | interpreted contract fields => rfl
  | hosted handle written =>
    simp only [callHost]
    split <;> rfl

namespace Known

variable {h : Heap T} {given : List (Value T.Class)} {o : Object T}

theorem get? (known : o.Known h given) {name : String} {value : Value T.Class}
    (found : o.get? name = some value) : Reachable h given value := by
  cases o with
  | interpreted contract fields => exact known.field found
  | hosted handle written =>
    rcases Option.or_eq_some_iff.mp found with own | ⟨_, answered⟩
    · exact known.field own
    · exact .attribute (known.handle rfl) answered

theorem evaluate (known : o.Known h given) (operand : Operand) :
    Reachable h given (Machine.evaluate o operand) := by
  cases operand with
  | text contents => exact .text contents
  | integer n => exact .integer n
  | name name =>
    change Reachable h given ((o.get? name).getD .null)
    cases found : o.get? name with
    | none => exact .null
    | some value => exact known.get? found

theorem ofHandle {handle : T.Handle} (reached : ReachableHandle h given handle) :
    (Object.ofHandle handle).Known h given where
  field holds := by cases holds
  handle holds := by
    cases holds
    exact reached

theorem insert {fields : Table (Value T.Class)}
    (field : ∀ {name value}, fields.get? name = some value → Reachable h given value)
    {value : Value T.Class} (plain : Reachable h given value) {name other : String}
    {found : Value T.Class} (holds : (fields.insert name value).get? other = some found) :
    Reachable h given found := by
  rw [Table.get?_insert] at holds
  split at holds
  · cases holds
    exact plain
  · exact field holds

theorem set (known : o.Known h given) {value : Value T.Class} (plain : Reachable h given value)
    (render : Value T.Class → String) (name : String) :
    (o.set render name value).2.Known h given := by
  cases o with
  | interpreted contract fields =>
    refine ⟨insert known.field plain, fun holds => ?_⟩
    cases holds
  | hosted handle written =>
    refine ⟨insert known.field plain, fun holds => ?_⟩
    cases holds
    exact .set (known.handle rfl) plain

/-- A call of a host object, with what it answers. -/
theorem callHost (known : o.Known h given) {args : List (Value T.Class)}
    (plain : ∀ arg ∈ args, Reachable h given arg) (render : Value T.Class → String)
    (method : String) :
    (o.callHost render method args).2.Known h given ∧
      ∀ value, (o.callHost render method args).1 = .ok value → Reachable h given value := by
  cases o with
  | interpreted contract fields =>
    refine ⟨known, fun value answered => ?_⟩
    cases answered
  | hosted handle written =>
    have owner : ReachableHandle h given handle := known.handle rfl
    have kept {changed : T.Handle} (reached : ReachableHandle h given changed) :
        (Object.hosted changed written).Known h given := by
      refine ⟨known.field, fun holds => ?_⟩
      cases holds
      exact reached
    simp only [Object.callHost]
    split
    · next value property =>
      refine ⟨kept (.set owner (plain value (List.mem_singleton.mpr rfl))), ?_⟩
      intro answer answered
      cases result : (T.set render handle method value).1 with
      | ok x =>
        rw [result] at answered
        cases answered
        exact .null
      | error e =>
        rw [result] at answered
        cases answered
    · exact ⟨kept (.invoked owner plain), fun answer answered => .result owner plain answered⟩
    · refine ⟨known, fun answer answered => ?_⟩
      cases answered

end Known

end Object

namespace Heap

/-- A later heap in which nothing can be got at that the first heap kept away. -/
structure Contained (h : Heap T) (given : List (Value T.Class)) (later : Heap T) : Prop where
  size : h.size ≤ later.size
  contract : ∀ id, (later.lookup id).contract? = (h.lookup id).contract?
  object : ∀ {id}, Reachable h given (.object id) → (later.lookup id).Known h given

namespace Contained

variable {h later : Heap T} {given : List (Value T.Class)}

theorem refl (h : Heap T) (given : List (Value T.Class)) : h.Contained given h :=
  ⟨Nat.le_refl _, fun _ => rfl, fun reached => ⟨.field reached, .held reached⟩⟩

theorem put (inside : h.Contained given later) {id : ObjectId} {o : Object T}
    (contract : o.contract? = (later.lookup id).contract?) (known : o.Known h given) :
    h.Contained given (later.put id o) where
  size := by simpa using inside.size
  contract other := by
    rcases later.lookup_put_cases id other o with same | ⟨rfl, new⟩
    · rw [same, inside.contract]
    · rw [new, contract, inside.contract]
  object {other} reached := by
    rcases later.lookup_put_cases id other o with same | ⟨rfl, new⟩
    · rw [same]
      exact inside.object reached
    · rw [new]
      exact known

theorem push (inside : h.Contained given later) {handle : T.Handle}
    (known : ReachableHandle h given handle) :
    h.Contained given (later.push (.ofHandle handle)) where
  size := Nat.le_trans inside.size (by simp)
  contract id := by
    rw [lookup_push]
    split
    · next new =>
      -- the place lies outside the first heap, and there is no contract there either
      have outside : h.size ≤ later.nextId := inside.size
      rw [new, h.lookup_of_size_le outside]
      rfl
    · exact inside.contract id
  object {id} reached := by
    rw [lookup_push]
    split
    · exact .ofHandle known
    · exact inside.object reached

end Contained

end Heap

namespace Machine

variable {h : Heap T} {given : List (Value T.Class)} {m : Machine T}

theorem setField_contained (inside : h.Contained given m.heap) {id : ObjectId}
    (reached : Reachable h given (.object id)) (name : String) {value : Value T.Class}
    (plain : Reachable h given value) :
    h.Contained given (leaves (setField id name value) m).heap := by
  unfold setField
  rw [leaves_update_heap]
  exact inside.put (Object.contract?_set ..) ((inside.object reached).set plain _ name)

theorem callHost_contained (inside : h.Contained given m.heap) {id : ObjectId}
    (reached : Reachable h given (.object id)) (method : String) {args : List (Value T.Class)}
    (plain : ∀ arg ∈ args, Reachable h given arg) :
    h.Contained given (leaves (callHost id method args) m).heap := by
  have object := inside.object reached
  unfold callHost
  rw [leaves_update_heap]
  exact inside.put (Object.contract?_callHost ..) (object.callHost plain _ method).1

theorem construct_contained (inside : h.Contained given m.heap) {receiver : ObjectId}
    (reached : Reachable h given (.object receiver)) (space cls : String) :
    Ends (construct receiver space cls) m
      (fun made after => h.Contained given after.heap ∧ Reachable h given (.object made))
      (fun _ after => h.Contained given after.heap) := by
  refine (construct_ends receiver space cls m).mono ?_ ?_
  · rintro made after ⟨holder, c, handle, found, offered, constructed, rfl, rfl⟩
    have known := inside.object ((inside.object reached).get? found)
    exact ⟨inside.push (.constructed (known.get? offered) constructed), .later inside.size⟩
  · rintro e after ⟨rfl, _⟩
    exact inside

/-- By induction on the parameters. -/
theorem bindParams_contained (inside : h.Contained given m.heap) {receiver : ObjectId}
    (reached : Reachable h given (.object receiver)) (params : List String)
    {args : List (Value T.Class)} (plain : ∀ arg ∈ args, Reachable h given arg) :
    h.Contained given (leaves (bindParams receiver params args) m).heap := by
  induction params generalizing m args with
  | nil => exact inside
  | cons param params ih =>
    have first : Reachable h given (args.headD .null) := by
      cases args with
      | nil => exact .null
      | cons arg rest => exact plain arg List.mem_cons_self
    have bound := setField_contained inside reached param first
    unfold bindParams
    rw [leaves_bind]
    unfold leaves at bound
    cases ran : setField receiver param (args.headD .null) m with
    | error e here =>
      rw [ran] at bound
      exact bound
    | ok x here =>
      rw [ran] at bound
      exact ih bound fun arg member => plain arg (List.mem_of_mem_tail member)

theorem printLine_contained (inside : h.Contained given m.heap) (value : Value T.Class) :
    h.Contained given (leaves (printLine value) m).heap := by
  rw [leaves_printLine]
  exact inside

end Machine

end ContractScript
