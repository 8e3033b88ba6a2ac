import ContractScript.Token

/-! Statements of a method body, and their operands. -/

namespace ContractScript

inductive Operand where
  | text (contents : String)
  | integer (value : Int64)
  /-- The field of this name on the receiver, whatever it holds when the statement runs. -/
  | name (name : String)
deriving DecidableEq, Inhabited

inductive Statement where
  /-- `let target = space . cls ( ) ;` binds a field to a new host object. -/
  | construct (target space cls : String)
  /-- `object . method ( args ) ;` -/
  | call (object method : String) (args : List Operand)
  /-- `print ( value ) ;` -/
  | print (value : Operand)
  /-- `let target = value ;` -/
  | assign (target : String) (value : Operand)
deriving DecidableEq, Inhabited

end ContractScript
