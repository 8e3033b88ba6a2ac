import ContractScript.Proofs.Machine.Outcome
import ContractScript.Run

/-!
The machines that an execution passes through: while parameters are bound, after any number of the
statements of its body, inside the methods that these statements call, and where it ends, in an
answer or in an error.
-/

namespace ContractScript.Machine

open ContractScript.Action

variable {T : Toolkit}

/-- The machine inside a method that starts to run its statements. -/
def deeper (m : Machine T) : Machine T := { m with depth := m.depth + 1 }

/-- `Passes config frames receiver method args m seen`: when the method is executed from `m` with
room for `frames` running methods, the machine is `seen` at some time. -/
inductive Passes (config : Config) :
    Nat → ObjectId → Method → List (Value T.Class) → Machine T → Machine T → Prop
  | begins {frames receiver method args m} : Passes config frames receiver method args m m
  | binds {frames receiver method args m statements params}
      (reads : method.compile config.mode = .ok statements) (part : params <+: method.params) :
      Passes config (frames + 1) receiver method args m
        (leaves (bindParams receiver params args) m)
  | runs {frames receiver method args m statements inside front}
      (reads : method.compile config.mode = .ok statements)
      (bound : bindParams receiver method.params args m = .ok () inside)
      (part : front <+: statements) :
      Passes config (frames + 1) receiver method args m
        (leaves (steps (executeWithin config frames) receiver front) inside.deeper)
  /-- The statement after `front` calls a method of an instance. -/
  | calls {frames receiver method args m statements inside front target name operands here callee
        contract fields body seen}
      (reads : method.compile config.mode = .ok statements)
      (bound : bindParams receiver method.params args m = .ok () inside)
      (part : front ++ [.call target name operands] <+: statements)
      (reached : steps (executeWithin config frames) receiver front inside.deeper = .ok () here)
      (resolves : resolve receiver target here.begun = .ok callee here.begun)
      (found : here.heap.lookup callee = .interpreted (some contract) fields)
      (offers : contract.methods.get? name = some body)
      (inner : Passes config frames callee body
        (operands.map (evaluate (here.heap.lookup receiver))) here.begun seen) :
      Passes config (frames + 1) receiver method args m seen
  | ends {frames receiver method args m} :
      Passes config frames receiver method args m
        (leaves (executeWithin config frames receiver method args) m)

/-- The machine with the instance of an entry contract, before imports are bound. -/
def instantiate (m : Machine T) (contract : Contract) : Machine T :=
  { m with heap := m.heap.push (.ofContract contract) }

/-- The machines that a run of a program from `m` passes through. -/
inductive RunPasses (config : Config) (registry : Registry T) (program : Program) (m : Machine T) :
    Machine T → Prop
  | begins : RunPasses config registry program m m
  | imports {contract method imports}
      (entry : program.entry config = .ok (contract, method))
      (part : imports <+: contract.imports.entries) :
      RunPasses config registry program m
        (leaves (bindImports registry m.heap.nextId imports) (m.instantiate contract))
  | body {contract method ready seen}
      (entry : program.entry config = .ok (contract, method))
      (bound : bindImports registry m.heap.nextId contract.imports.entries
        (m.instantiate contract) = .ok () ready)
      (inner : Passes config (config.maxCallDepth - ready.depth) m.heap.nextId method [] ready
        seen) :
      RunPasses config registry program m seen
  | ends : RunPasses config registry program m (leaves (runProgram config registry program) m)

end ContractScript.Machine
