import ContractScript.Config
import ContractScript.Error
import ContractScript.Table
import ContractScript.Token

/-!
Programs: contracts with their imports, field declarations and methods. A method keeps its body as
tokens; they become statements when the method is executed.
-/

namespace ContractScript

/-- Whether a member may be named from outside its contract. It is recorded and not enforced. -/
inductive Access where
  | exposed
  | internal
deriving DecidableEq, Inhabited

namespace Access

def keyword : Access → String
  | exposed => "public"
  | internal => "private"

def ofKeyword? (word : String) : Option Access :=
  [exposed, internal].find? fun access => access.keyword = word

end Access

structure FieldDecl where
  access : Access
  type : String
  /-- Programs that come from a source text declare no values. -/
  value : Option String
deriving DecidableEq, Inhabited

namespace FieldDecl

/-- The type recorded for a field declared without one. -/
def unknownType : String := "Unknown"

end FieldDecl

structure Method where
  name : String
  access : Access
  params : List String
  returnType : String
  body : List Token
deriving DecidableEq, Inhabited

namespace Method

/-- The return type recorded for a method declared without one. -/
def voidType : String := "Void"

end Method

structure Contract where
  name : String
  fields : Table FieldDecl
  methods : Table Method
  /-- Module names under their aliases. -/
  imports : Table String
deriving DecidableEq, Inhabited

namespace Contract

/-- A contract without members. -/
def named (name : String) : Contract := ⟨name, ∅, ∅, ∅⟩

def addImport (c : Contract) (localName module : String) : Contract :=
  { c with imports := c.imports.insert localName module }

def addField (c : Contract) (name : String) (decl : FieldDecl) : Contract :=
  { c with fields := c.fields.insert name decl }

def addMethod (c : Contract) (method : Method) : Contract :=
  { c with methods := c.methods.insert method.name method }

end Contract

/-- Contracts under the keys by which a run finds them. -/
structure Program where
  contracts : Table Contract
deriving DecidableEq, Inhabited

namespace Program

def empty : Program := ⟨∅⟩

def addContract (p : Program) (c : Contract) : Program :=
  ⟨p.contracts.insert c.name c⟩

/-- The contract and the method where a run starts. -/
def entry (p : Program) (config : Config) : Except Error (Contract × Method) :=
  match p.contracts.get? config.entryContract with
  | none => .error (.noEntryContract config.entryContract)
  | some contract =>
    match contract.methods.get? config.entryMethod with
    | none => .error (.noEntryMethod contract.name config.entryMethod)
    | some method => .ok (contract, method)

end Program

end ContractScript
