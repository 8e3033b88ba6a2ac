/-!
What a run needs to know besides the program: where it starts, how bodies are read, and how deep
calls may nest.
-/

namespace ContractScript

/-- How a method body is read into statements. -/
inductive Mode where
  /-- A token that starts no statement is an error, and every statement ends with `;`. -/
  | strict
  /-- A token that starts no statement is skipped, and `;` may be left out. -/
  | lenient
deriving DecidableEq, Inhabited

namespace Mode

def name : Mode → String
  | strict => "strict"
  | lenient => "lenient"

def ofName? (name : String) : Option Mode :=
  [strict, lenient].find? fun mode => mode.name = name

end Mode

structure Config where
  entryContract : String := "App"
  entryMethod : String := "main"
  mode : Mode := .strict
  /-- How many interpreted calls may be active at once. -/
  maxCallDepth : Nat := 256
deriving DecidableEq, Inhabited

namespace Config

/-- A limit on call depth is below this bound, 2⁶⁴. -/
def depthBound : Nat := 18446744073709551616

end Config

end ContractScript
