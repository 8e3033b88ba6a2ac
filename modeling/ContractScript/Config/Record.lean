import ContractScript.Config
import ContractScript.Json

/-! Configurations as JSON records. A field that is left out has its default. -/

namespace ContractScript

namespace Mode

def ofJson? (j : Json) : Option Mode :=
  j.choice?.bind ofName?

end Mode

namespace Config

/-- The names of the fields, in order. -/
def fieldNames : List String := ["entry_contract", "entry_method", "mode", "max_call_depth"]

def depthOfJson? (j : Json) : Option Nat :=
  j.nat?.filter (· < depthBound)

/-- Reads a field, or takes its default where it is left out. -/
def field? {α : Type} (read : Json → Option α) (fallback : α) : Option Json → Option α
  | some j => read j
  | none => some fallback

def ofJson? (j : Json) : Option Config :=
  match j.fields? fieldNames 0 with
  | some [contract, method, mode, depth] => do
    let base : Config := {}
    let entryContract ← field? Json.string? base.entryContract contract
    let entryMethod ← field? Json.string? base.entryMethod method
    let mode ← field? Mode.ofJson? base.mode mode
    let maxCallDepth ← field? depthOfJson? base.maxCallDepth depth
    pure { entryContract, entryMethod, mode, maxCallDepth }
  | _ => none

end Config

end ContractScript
