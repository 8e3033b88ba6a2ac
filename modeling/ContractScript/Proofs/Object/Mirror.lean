import ContractScript.Heap
import ContractScript.Proofs.Grey.Handle
import ContractScript.Proofs.Table

/-!
Reading the properties of a window or a label after any number of writes. A property is written in
two ways: through the object, which notes the value and hands it to the handle, and by a call with
one argument, of which only the handle learns. A note is never taken back, and reading looks at the
notes first. Main statement: what the handle and the object answer after a sequence of writes of
both kinds, and when the two answers are the same.
-/

namespace ContractScript.Object

/-- What can be asked of a host object. Each operation comes with the texts that values have when it
is performed. -/
inductive Operation (T : Toolkit) where
  | set (render : Value T.Class → String) (name : String) (value : Value T.Class)
  | call (render : Value T.Class → String) (method : String) (args : List (Value T.Class))

namespace Operation

variable {T : Toolkit}

def perform : Operation T → Object T → Except Error Unit × Object T
  | set render name value, o => o.set render name value
  | call render method args, o =>
    let (result, o) := o.callHost render method args
    (result.map fun _ => (), o)

/-- Performs operations in order. There is an object in the end if none of them fails. -/
def performAll : List (Operation T) → Object T → Except Error (Object T)
  | [], o => .ok o
  | operation :: rest, o =>
    match operation.perform o with
    | (.ok _, o) => performAll rest o
    | (.error e, _) => .error e

/-- The last value that operations give, or the first one if they give none. -/
def latest (gives : Operation T → Option (Value T.Class)) (operations : List (Operation T))
    (first : Option (Value T.Class)) : Option (Value T.Class) :=
  operations.foldl (fun value operation => (gives operation).or value) first

/-- What the object notes of a property. -/
def noted (property : String) : Operation T → Option (Value T.Class)
  | set _ name value => if property = name then some value else none
  | call .. => none

variable {kept : (Value T.Class → String) → String → Value T.Class → Value T.Class}

variable (kept) in
/-- What the handle comes to hold as a property, in the one way or the other. -/
def stored (property : String) : Operation T → Option (Value T.Class)
  | set render name value | call render name [value] =>
    if property = name then some (kept render name value) else none
  | call .. => none

theorem stored_call_of_ne {render : Value T.Class → String} {method : String}
    {args : List (Value T.Class)} {p : String} (differ : p ≠ method) :
    (call render method args).stored kept p = none := by
  match args with
  | [value] => exact if_neg differ
  | [] => rfl
  | _ :: _ :: _ => rfl

variable (retains : T.Retains kept) {handle : T.Handle} {notes : Table (Value T.Class)}
  {after : Object T}

include retains

theorem get_set_eq_or {render : Value T.Class → String} {name : String} {value : Value T.Class}
    (taken : (T.set render handle name value).1 = .ok ()) (p : String) :
    T.get (T.set render handle name value).2 p =
      (if p = name then some (kept render name value) else none).or (T.get handle p) := by
  rw [retains.get_set taken]
  split <;> rfl

/-- One operation that is not refused. -/
theorem perform_hosted {operation : Operation T}
    (taken : operation.perform (.hosted handle notes) = (.ok (), after)) :
    ∃ last later, after = .hosted last later ∧ T.member last = T.member handle ∧
      ∀ p, T.member handle p = some .property →
        T.get last p = (operation.stored kept p).or (T.get handle p) ∧
        later.get? p = (operation.noted p).or (notes.get? p) := by
  cases operation with
  | set render name value =>
    obtain ⟨accepted, rfl⟩ := Prod.ext_iff.mp taken
    refine ⟨(T.set render handle name value).2, notes.insert name value, rfl,
      retains.member_set .., fun p _ => ⟨get_set_eq_or retains accepted p, ?_⟩⟩
    rw [Table.get?_insert, noted]
    split <;> rfl
  | call render method args =>
    simp only [perform, callHost] at taken
    obtain ⟨accepted, rfl⟩ := Prod.ext_iff.mp taken
    split at accepted
    · next value offered =>
      cases answer : (T.set render handle method value).1 with
      | error e => simp [answer, Except.map] at accepted
      | ok x =>
        exact ⟨_, notes, rfl, retains.member_set .., fun p _ =>
          ⟨get_set_eq_or retains answer p, rfl⟩⟩
    · next offered =>
      refine ⟨_, notes, rfl, retains.member_invoke .., fun p property => ⟨?_, rfl⟩⟩
      have differ : p ≠ method := by
        rintro rfl
        cases property.symm.trans offered
      rw [retains.get_invoke, stored_call_of_ne differ, Option.none_or]
    · simp [Except.map] at accepted

/-- By induction on the operations. Every one of them adds its note and what it tells the handle to
those before. -/
theorem performAll_hosted {operations : List (Operation T)}
    (performed : performAll operations (.hosted handle notes) = .ok after) :
    ∃ last later, after = .hosted last later ∧
      ∀ p, T.member handle p = some .property →
        T.get last p = latest (stored kept p) operations (T.get handle p) ∧
        later.get? p = latest (noted p) operations (notes.get? p) := by
  induction operations generalizing handle notes with
  | nil =>
    cases performed
    exact ⟨handle, notes, rfl, fun p _ => ⟨rfl, rfl⟩⟩
  | cons operation rest ih =>
    unfold performAll at performed
    split at performed
    · next there taken =>
      obtain ⟨handle', notes', rfl, members, first⟩ := perform_hosted retains taken
      obtain ⟨last, later, rfl, answers⟩ := ih performed
      refine ⟨last, later, rfl, fun p property => ?_⟩
      obtain ⟨holds, notes⟩ := first p property
      rw [← members] at property
      obtain ⟨held, read⟩ := answers p property
      exact ⟨by rw [held, holds]; rfl, by rw [read, notes]; rfl⟩
    · cases performed

end Operation

open Operation

/-- After operations that all succeed, a window or a label holds as a property what was written last
in either way, while the object answers with what it noted last. So both answer the same as long as
the last note is what the handle holds. -/
theorem reads_after_writes {operations : List (Operation Grey.toolkit)}
    {handle : Grey.toolkit.Handle} {notes : Table (Value Grey.toolkit.Class)}
    {after : Object Grey.toolkit}
    (performed : performAll operations (.hosted handle notes) = .ok after) :
    ∃ last later, after = .hosted last later ∧
      ∀ p, Grey.toolkit.member handle p = some .property →
        Grey.toolkit.get last p =
          latest (stored Grey.kept p) operations (Grey.toolkit.get handle p) ∧
        after.get? p =
          (latest (noted p) operations (notes.get? p)).or (Grey.toolkit.get last p) ∧
        (after.get? p = Grey.toolkit.get last p ↔
          ∀ value, latest (noted p) operations (notes.get? p) = some value →
            Grey.toolkit.get last p = some value) := by
  obtain ⟨last, later, rfl, answers⟩ := performAll_hosted Grey.toolkit_retains performed
  refine ⟨last, later, rfl, fun p property => ?_⟩
  obtain ⟨held, read⟩ := answers p property
  have answered : (hosted last later).get? p =
      (latest (noted p) operations (notes.get? p)).or (Grey.toolkit.get last p) :=
    congrArg (Option.or · (Grey.toolkit.get last p)) read
  refine ⟨held, answered, ?_⟩
  rw [answered]
  cases latest (noted p) operations (notes.get? p) with
  | none => simp
  | some value => simp [eq_comm]

/-- The texts of values as long as there is no object. -/
def plainTexts : Value Grey.toolkit.Class → String := Heap.empty.render

/-- A window is resized through the object, given a title by a call, shown, and given another title
through the object. -/
def retitling : List (Operation Grey.toolkit) :=
  [.set plainTexts "width" (.integer 640), .call plainTexts "title" [.text "A"],
    .call plainTexts "show" [], .set plainTexts "title" (.text "B")]

theorem reads_after_writes_retitling :
    ∃ after last later, performAll retitling (.hosted (.window {}) ∅) = .ok after ∧
      after = .hosted last later ∧ Grey.toolkit.get last "title" = some (.text "B") ∧
      after.get? "title" = some (.text "B") ∧
      after.get? "title" = Grey.toolkit.get last "title" := by
  obtain ⟨after, performed⟩ : ∃ after : Object Grey.toolkit,
      performAll retitling (.hosted (.window {}) ∅) = .ok after := ⟨_, rfl⟩
  obtain ⟨last, later, same, answers⟩ := reads_after_writes performed
  obtain ⟨held, read, agree⟩ := answers "title" rfl
  refine ⟨after, last, later, performed, same, held, read, agree.mpr ?_⟩
  rintro value noted
  cases noted
  exact held

/-- A title that is set through the object and then by a call is read as it was before the call. -/
theorem reads_stale_title :
    ∃ last later, performAll
        [.set plainTexts "title" (.text "A"), .call plainTexts "title" [.text "B"]]
        (.ofHandle (.window {})) = .ok (.hosted last later) ∧
      (hosted last later).get? "title" = some (.text "A") ∧
      Grey.toolkit.get last "title" = some (.text "B") :=
  ⟨_, _, rfl, rfl, rfl⟩

end ContractScript.Object
