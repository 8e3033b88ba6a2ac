import ContractScript.Heap
import ContractScript.Sink
import ContractScript.Statement.Compile

/-!
Executing methods. A machine holds the objects, the output, the number of calls in progress and the
number of statements begun. An action that fails leaves the machine as it was at the failure, so the
effects of the statements before it stay.

Methods have no local variables: parameters and assigned names are fields of the receiver.
-/

namespace ContractScript

structure Machine (T : Toolkit) where
  heap : Heap T
  sink : Sink
  /-- How many methods are running, one inside the other. -/
  depth : Nat
  /-- How many statements were begun so far. -/
  executed : Nat

abbrev Action (T : Toolkit) (α : Type) : Type := EStateM Error (Machine T) α

namespace Machine

variable {T : Toolkit}

/-- A machine with no objects, before anything runs. -/
def start (sink : Sink) : Machine T := ⟨.empty, sink, 0, 0⟩

/-- The object at a place. -/
def object (id : ObjectId) : Action T (Object T) := fun m => .ok (m.heap.lookup id) m

/-- Makes a new object. -/
def allocate (o : Object T) : Action T ObjectId := fun m =>
  .ok m.heap.nextId { m with heap := m.heap.push o }

/-- Changes one object, and keeps the change when the operation on it fails. The operation may ask
for texts of values, in which the object itself has no description. -/
def update {α : Type} (id : ObjectId)
    (operation : (Value T.Class → String) → Object T → Except Error α × Object T) : Action T α :=
  fun m =>
    let (result, changed) := operation (m.heap.renderExcept id) (m.heap.lookup id)
    let after := { m with heap := m.heap.put id changed }
    match result with
    | .ok a => .ok a after
    | .error e => .error e after

def setField (id : ObjectId) (name : String) (value : Value T.Class) : Action T Unit :=
  update id fun render o => o.set render name value

def callHost (id : ObjectId) (method : String) (args : List (Value T.Class)) :
    Action T (Value T.Class) :=
  update id fun render o => o.callHost render method args

/-- The object that a field of the receiver refers to. -/
def resolve (receiver : ObjectId) (name : String) : Action T ObjectId := do
  match (← object receiver).get? name with
  | none | some .null => throw (.undefinedReference name)
  | some (.object id) => pure id
  | some _ => throw (.notAnObject name)

/-- The value of an operand; a field that does not exist reads as null. -/
def evaluate (o : Object T) : Operand → Value T.Class
  | .text contents => .text contents
  | .integer value => .integer value
  | .name name => (o.get? name).getD .null

/-- Writes the text of a value and a line feed. -/
def printLine (value : Value T.Class) : Action T Unit := fun m =>
  let bytes := (m.heap.render value).toUTF8.data ++ "\n".toUTF8.data
  match m.sink.write bytes with
  | (true, sink) => .ok () { m with sink }
  | (false, sink) => .error (.output Sink.full) { m with sink }

/-- Makes an object of a host class that a namespace offers. -/
def construct (receiver : ObjectId) (space cls : String) : Action T ObjectId := do
  let id ← resolve receiver space
  match (← object id).get? cls with
  | some (.cls c) =>
    match T.construct c.cls with
    | .ok handle => allocate (.ofHandle handle)
    | .error e => throw e
  | _ => throw (.notCallable cls)

/-- Binds parameters to arguments as fields. Parameters without an argument become null, arguments
without a parameter are dropped. -/
def bindParams (receiver : ObjectId) : List String → List (Value T.Class) → Action T Unit
  | [], _ => pure ()
  | param :: params, args => do
    setField receiver param (args.headD .null)
    bindParams receiver params args.tail

/-- Counts one more running method during an action, however the action ends. -/
def nested {α : Type} (action : Action T α) : Action T α := fun m =>
  match action { m with depth := m.depth + 1 } with
  | .ok a m => .ok a { m with depth := m.depth - 1 }
  | .error e m => .error e { m with depth := m.depth - 1 }

/-- Calls a method of an object, with `execute` for the methods of contracts. -/
def dispatch (execute : ObjectId → Method → List (Value T.Class) → Action T Unit)
    (receiver : ObjectId) (method : String) (args : List (Value T.Class)) :
    Action T (Value T.Class) := do
  match ← object receiver with
  | .hosted .. => callHost receiver method args
  | .interpreted none _ => throw (.noContract method)
  | .interpreted (some contract) _ =>
    match contract.methods.get? method with
    | none => throw (.noMethod method contract.name)
    | some method => do
      execute receiver method args
      pure .null

/-- Runs one statement, with `execute` for the methods it calls. -/
def step (execute : ObjectId → Method → List (Value T.Class) → Action T Unit)
    (receiver : ObjectId) (statement : Statement) : Action T Unit := do
  modify fun m => { m with executed := m.executed + 1 }
  match statement with
  | .construct target space cls => do
    let made ← construct receiver space cls
    setField receiver target (.object made)
  | .call target method args => do
    let callee ← resolve receiver target
    let o ← object receiver
    let _ ← dispatch execute callee method (args.map (evaluate o))
  | .print value => do
    let o ← object receiver
    printLine (evaluate o value)
  | .assign target value => do
    let o ← object receiver
    setField receiver target (evaluate o value)

/-- Runs statements in order, up to the first that fails. -/
def steps (execute : ObjectId → Method → List (Value T.Class) → Action T Unit)
    (receiver : ObjectId) : List Statement → Action T Unit
  | [] => pure ()
  | statement :: rest => do
    step execute receiver statement
    steps execute receiver rest

/-- Executes a method when `frames` more methods may run inside those already running. The body is
read as a whole before anything else happens. -/
def executeWithin (config : Config) :
    (frames : Nat) → ObjectId → Method → List (Value T.Class) → Action T Unit
  | 0, _, _, _ => throw (.callDepth config.maxCallDepth)
  | frames + 1, receiver, method, args =>
    match method.compile config.mode with
    | .error e => throw e
    | .ok statements => do
      bindParams receiver method.params args
      nested (steps (executeWithin config frames) receiver statements)

/-- Executes a method with an object of any kind as its receiver. -/
def execute (config : Config) (receiver : ObjectId) (method : Method)
    (args : List (Value T.Class)) : Action T Unit := do
  executeWithin config (config.maxCallDepth - (← get).depth) receiver method args

/-- Calls a method of an object: of a host object through its toolkit, of an instance as its
contract has it. -/
def call (config : Config) (receiver : ObjectId) (method : String)
    (args : List (Value T.Class)) : Action T (Value T.Class) :=
  dispatch (execute config) receiver method args

end Machine

end ContractScript
