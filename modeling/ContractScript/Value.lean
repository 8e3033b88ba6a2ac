/-!
Values of the language. Objects and classes are referred to by identity: an object by its place in
a heap, a class by the serial number it got when it was made available.
-/

namespace ContractScript

/-- The place of an object in a heap. -/
abbrev ObjectId := Nat

/-- A host class with the serial number that tells it from other objects of the same class. -/
structure ClassObject (C : Type) where
  serial : Nat
  cls : C
deriving DecidableEq

inductive Value (C : Type) where
  | null
  | integer (value : Int64)
  | text (contents : String)
  | object (id : ObjectId)
  | cls (c : ClassObject C)
deriving DecidableEq

namespace Value

variable {C : Type}

instance : Inhabited (Value C) := ⟨null⟩

def typeName : Value C → String
  | null => "Null"
  | integer _ => "Integer"
  | text _ => "String"
  | object _ => "Object"
  | cls _ => "Class"

def integer? : Value C → Option Int64
  | integer value => some value
  | _ => none

def object? : Value C → Option ObjectId
  | object id => some id
  | _ => none

/-- The text of a value, given the texts of objects and the names of classes. -/
def render (describe : ObjectId → String) (className : C → String) : Value C → String
  | null => "null"
  | integer value => toString value.toInt
  | text contents => contents
  | object id => describe id
  | cls c => s!"<class {className c.cls}>"

/-- Whether two values are the same; classes are the same when their serial numbers are. -/
def same : Value C → Value C → Bool
  | null, null => true
  | integer a, integer b => a == b
  | text a, text b => a == b
  | object a, object b => a == b
  | cls a, cls b => a.serial == b.serial
  | _, _ => false

end Value

end ContractScript
