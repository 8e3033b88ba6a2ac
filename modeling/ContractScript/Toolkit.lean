import ContractScript.Error
import ContractScript.Value

/-!
Host toolkits: what the interpreter needs to know of the classes that scripts construct. A handle is
the state of one host object. Setting an attribute and invoking a method return the new handle next
to the result, also when they fail; they may ask for the text of any value.
-/

namespace ContractScript

/-- What a host object offers under a name. -/
inductive Member where
  /-- Read and written; a call with one argument writes it. -/
  | property
  | method
deriving DecidableEq

structure Toolkit where
  Class : Type
  Handle : Type
  className : Class → String
  construct : Class → Except Error Handle
  handleClass : Handle → String
  member : Handle → String → Option Member
  get : Handle → String → Option (Value Class)
  set : (Value Class → String) → Handle → String → Value Class → Except Error Unit × Handle
  invoke : (Value Class → String) → Handle → String → List (Value Class) →
    Except Error (Value Class) × Handle

end ContractScript
