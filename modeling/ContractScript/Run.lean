import ContractScript.Finding
import ContractScript.Machine
import ContractScript.Program.Reader
import ContractScript.Registry

/-!
Whole runs: a program from its entry method, and a source text from the line checks on.
-/

namespace ContractScript

/-- How a run of a source text ends when no error is raised. -/
inductive Outcome where
  /-- The line checks found flaws, and nothing was read or run. -/
  | rejected (findings : List Finding)
  /-- The entry method returned; the instance it ran on is left behind. -/
  | completed (entry : ObjectId)

namespace Machine

variable {T : Toolkit}

/-- Binds each import whose module is registered to a new namespace under its alias. -/
def bindImports (registry : Registry T) (entry : ObjectId) : List (String × String) → Action T Unit
  | [] => pure ()
  | (localName, module) :: rest => do
    match registry.space? module with
    | some space => do
      let id ← allocate space
      setField entry localName (.object id)
    | none => pure ()
    bindImports registry entry rest

/-- Makes an instance of the entry contract and calls the entry method on it. -/
def runProgram (config : Config) (registry : Registry T) (program : Program) :
    Action T ObjectId := do
  match program.entry config with
  | .error e => throw e
  | .ok (contract, _) => do
    let entry ← allocate (.ofContract contract)
    bindImports registry entry contract.imports.entries
    let _ ← call config entry config.entryMethod []
    pure entry

/-- Checks, reads and runs a source text. -/
def runSource (config : Config) (registry : Registry T) (source : String) : Action T Outcome :=
  match Finding.check source with
  | [] =>
    match Program.ofSource source with
    | .error e => throw e
    | .ok program => return .completed (← runProgram config registry program)
  | findings => pure (.rejected findings)

end Machine

end ContractScript
