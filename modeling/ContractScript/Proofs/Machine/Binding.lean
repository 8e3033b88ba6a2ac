import ContractScript.Proofs.Machine.Outcome
import ContractScript.Proofs.Table

/-!
Parameters and their arguments. Each parameter goes over the fields that the receiver has, and over
the parameters before it. Main statement: an interpreted receiver takes them all; a name holds what
its last place in the list of parameters is given, and null if nothing is given there.
-/

namespace ContractScript

/-- What parameters are bound to, one after the other. -/
def bindings {C : Type} : List String → List (Value C) → List (String × Value C)
  | [], _ => []
  | param :: params, args => (param, args.headD .null) :: bindings params args.tail

section Bindings

variable {C : Type} {name : String}

theorem bindings_append (front back : List String) (args : List (Value C)) :
    bindings (front ++ back) args =
      bindings front args ++ bindings back (args.drop front.length) := by
  induction front generalizing args with
  | nil => rfl
  | cons param front ih =>
    rw [List.cons_append, bindings, ih, bindings, List.drop_tail, List.length_cons,
      List.cons_append]

theorem lookup_reverse_bindings_of_not_mem {params : List String} (absent : name ∉ params)
    (args : List (Value C)) : (bindings params args).reverse.lookup name = none := by
  induction params generalizing args with
  | nil => rfl
  | cons param params ih =>
    have later : name ∉ params := fun member => absent (List.mem_cons_of_mem _ member)
    have other : name ≠ param := fun same => absent (same ▸ List.mem_cons_self)
    rw [bindings, List.reverse_cons, List.lookup_append, ih later, Option.none_or,
      Table.lookup_cons_of_ne other]
    rfl

theorem get?_insertAll_bindings_of_not_mem {params : List String} (absent : name ∉ params)
    (args : List (Value C)) (fields : Table (Value C)) :
    (fields.insertAll (bindings params args)).get? name = fields.get? name := by
  rw [Table.get?_insertAll, lookup_reverse_bindings_of_not_mem absent, Option.none_or]

/-- The last place of a name decides. -/
theorem get?_insertAll_bindings_of_last {back : List String} (last : name ∉ back)
    (front : List String) (args : List (Value C)) (fields : Table (Value C)) :
    (fields.insertAll (bindings (front ++ name :: back) args)).get? name =
      some (args.getD front.length .null) := by
  have given : (args.drop front.length).headD .null = args.getD front.length .null := by
    rw [List.headD_eq_head?_getD, List.head?_drop, List.getD_eq_getElem?_getD]
  rw [Table.get?_insertAll, bindings_append, bindings, given, List.reverse_append,
    List.reverse_cons, List.lookup_append, List.lookup_append,
    lookup_reverse_bindings_of_not_mem last, Option.none_or, List.lookup_cons_self]
  rfl

theorem exists_last_split {params : List String} (among : name ∈ params) :
    ∃ front back, params = front ++ name :: back ∧ name ∉ back := by
  obtain ⟨back, front, split, last⟩ := List.eq_append_cons_of_mem (List.mem_reverse.mpr among)
  refine ⟨front.reverse, back.reverse, ?_, by simpa using last⟩
  rw [← params.reverse_reverse, split]
  simp

theorem get?_insertAll_bindings_nil (fields : Table (Value C)) (params : List String)
    (name : String) :
    (fields.insertAll (bindings params [])).get? name =
      if name ∈ params then some .null else fields.get? name := by
  split
  · next among =>
    obtain ⟨front, back, rfl, last⟩ := exists_last_split among
    rw [get?_insertAll_bindings_of_last last, List.getD_nil]
  · next absent => exact get?_insertAll_bindings_of_not_mem absent [] fields

end Bindings

namespace Machine

open ContractScript.Action

variable {T : Toolkit} {m : Machine T} {receiver : ObjectId} {contract : Option Contract}
  {fields : Table (Value T.Class)}

/-- Interpreted objects take every parameter. -/
theorem bindParams_apply (live : receiver < m.heap.size)
    (found : m.heap.lookup receiver = .interpreted contract fields) (params : List String)
    (args : List (Value T.Class)) :
    bindParams receiver params args m =
      .ok () { m with
        heap := m.heap.put receiver
          (.interpreted contract (fields.insertAll (bindings params args))) } := by
  induction params generalizing m fields args with
  | nil =>
    change EStateM.Result.ok () m = .ok () { m with
      heap := m.heap.put receiver (.interpreted contract fields) }
    rw [← found, m.heap.put_lookup]
  | cons param params ih =>
    have here : (m.heap.put receiver (.interpreted contract
        (fields.insert param (args.headD .null)))).lookup receiver =
          .interpreted contract (fields.insert param (args.headD .null)) := by
      rw [Heap.lookup_put _ _ _ _ live, if_pos rfl]
    simp only [bindParams, bind_apply, setField_apply found]
    rw [ih (by simpa using live) here, Heap.put_put]
    rfl

theorem bindParams_take (receiver : ObjectId) (params : List String)
    (args : List (Value T.Class)) :
    bindParams receiver params (args.take params.length) = bindParams receiver params args := by
  induction params generalizing args with
  | nil => rfl
  | cons param params ih =>
    have later : (args.take (params.length + 1)).tail = args.tail.take params.length := by
      cases args <;> simp
    have first : (args.take (params.length + 1)).headD .null = args.headD .null := by
      cases args <;> simp
    rw [List.length_cons, bindParams, first, later]
    simp only [ih, bindParams]

end Machine

end ContractScript
