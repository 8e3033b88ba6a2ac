import ContractScript.Program
import ContractScript.Toolkit

/-!
Objects: contract instances, namespaces of host classes, and host objects. A host object keeps, next
to its handle, the fields that were written through it; reading looks there first.
-/

namespace ContractScript

theorem Except.map_eq_error_iff {ε α β : Type} {f : α → β} {result : Except ε α} {e : ε} :
    result.map f = .error e ↔ result = .error e := by
  cases result <;> simp [Except.map]

variable {T : Toolkit}

inductive Object (T : Toolkit) where
  /-- Without a contract the object is a namespace. -/
  | interpreted (contract : Option Contract) (fields : Table (Value T.Class))
  | hosted (handle : T.Handle) (written : Table (Value T.Class))

namespace Object

/-- A new instance of a contract, every declared field null. -/
def ofContract (c : Contract) : Object T :=
  .interpreted (some c) (c.fields.map fun _ => .null)

def ofNamespace (fields : Table (Value T.Class)) : Object T :=
  .interpreted none fields

def ofHandle (handle : T.Handle) : Object T :=
  .hosted handle ∅

instance : Inhabited (Object T) := ⟨ofNamespace ∅⟩

def isHost : Object T → Bool
  | interpreted .. => false
  | hosted .. => true

def contract? : Object T → Option Contract
  | interpreted contract _ => contract
  | hosted .. => none

def handle? : Object T → Option T.Handle
  | interpreted .. => none
  | hosted handle _ => some handle

/-- The object's own fields; of a host object, those written through it. -/
def fields : Object T → Table (Value T.Class)
  | interpreted _ fields => fields
  | hosted _ written => written

/-- The short text for an object in output. -/
def describe : Object T → String
  | interpreted (some c) _ => s!"<{c.name} instance>"
  | interpreted none _ => "<namespace>"
  | hosted handle _ => s!"<{T.handleClass handle} object>"

/-- Own fields win; a host object's handle answers for the rest. -/
def get? (o : Object T) (name : String) : Option (Value T.Class) :=
  match o with
  | interpreted _ fields => fields.get? name
  | hosted handle written => (written.get? name).or (T.get handle name)

/-- Writes a field. A host object notes the value before its handle may refuse it. -/
def set (render : Value T.Class → String) (name : String) (value : Value T.Class) :
    Object T → Except Error Unit × Object T
  | interpreted contract fields => (.ok (), .interpreted contract (fields.insert name value))
  | hosted handle written =>
    let (result, handle) := T.set render handle name value
    (result, .hosted handle (written.insert name value))

/-- Calls a member of a host object: a property with one argument is set, a method is invoked. -/
def callHost (render : Value T.Class → String) (method : String) (args : List (Value T.Class)) :
    Object T → Except Error (Value T.Class) × Object T
  | interpreted contract fields => (.error (.noContract method), .interpreted contract fields)
  | hosted handle written =>
    match T.member handle method, args with
    | some .property, [value] =>
      let (result, handle) := T.set render handle method value
      (result.map fun _ => .null, .hosted handle written)
    | some .method, args =>
      let (result, handle) := T.invoke render handle method args
      (result, .hosted handle written)
    | _, _ => (.error (.noMember method (T.handleClass handle)), .hosted handle written)

end Object

end ContractScript
