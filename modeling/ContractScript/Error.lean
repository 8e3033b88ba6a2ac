/-!
What can go wrong between a source text and the end of a run, each cause with the data that its
message needs.
-/

namespace ContractScript

inductive Error where
  /-- The token at `index` is not what the grammar wants there. -/
  | unexpected (index : Nat) (wanted found : String)
  /-- No statement starts at this token of a method body. -/
  | unrecognized (method : String) (index : Nat) (token : String)
  /-- The digits stand for a number beyond the integers of the language. -/
  | integerRange (digits : String)
  | undefinedReference (name : String)
  | notCallable (name : String)
  | notAnObject (name : String)
  /-- The host object offers no member that a call of this name could reach. -/
  | noMember (method target : String)
  | noMethod (method contract : String)
  | noContract (method : String)
  | callDepth (limit : Nat)
  /-- A host class or host object refuses. -/
  | host (reason : String)
  /-- The output takes no more bytes. -/
  | output (reason : String)
  | noEntryContract (contract : String)
  | noEntryMethod (contract method : String)
deriving DecidableEq, Inhabited

namespace Error

def message : Error → String
  | unexpected index wanted found =>
    s!"Expected '{wanted}' at token {index}, got '{found}'"
  | unrecognized method index token =>
    s!"Unrecognized statement in '{method}' at body token {index}: '{token}'"
  | integerRange digits => s!"Invalid integer literal '{digits}'"
  | undefinedReference name => s!"Undefined reference '{name}'"
  | notCallable name => s!"'{name}' is not a callable class"
  | notAnObject name => s!"'{name}' is not an object"
  | noMember method target => s!"Method '{method}' not found on host object '{target}'"
  | noMethod method contract => s!"Method '{method}' not found in contract '{contract}'"
  | noContract method => s!"No contract for method call '{method}'"
  | callDepth limit => s!"Call depth limit of {limit} exceeded"
  | host reason => s!"Host error: {reason}"
  | output reason => s!"Failed to write program output: {reason}"
  | noEntryContract contract => s!"Contract {contract} not found"
  | noEntryMethod contract method => s!"Function {method} not found in contract {contract}"

/-- Errors of the text of a program, as opposed to errors of running it. -/
def isSyntax : Error → Bool
  | unexpected .. | unrecognized .. | integerRange .. => true
  | _ => false

end Error

end ContractScript
