import ContractScript.Digest
import ContractScript.Json.Reader
import ContractScript.Json.Writer
import ContractScript.Program

/-!
Programs as JSON records, written with every field in a fixed order and tables in the order of their
keys. The compact text of that record is the canonical form of a program, and its digest the
program's fingerprint.
-/

namespace ContractScript

namespace Table

variable {α : Type}

def toJson (value : α → Json) (table : Table α) : Json :=
  .object (table.entries.map fun entry => (entry.1, value entry.2))

def ofJson? (value : Json → Option α) (j : Json) : Option (Table α) := do
  let members ← j.object?
  let entries ← members.mapM fun (name, member) => (value member).map fun v => (name, v)
  pure (ofList entries)

end Table

namespace Access

def toJson (a : Access) : Json := .string a.keyword

def ofJson? (j : Json) : Option Access := j.choice?.bind ofKeyword?

end Access

namespace FieldDecl

def toJson (d : FieldDecl) : Json :=
  .object [("access", d.access.toJson), ("type", .string d.type),
    ("value", match d.value with
      | some value => .string value
      | none => .null)]

/-- A declared value: a text, or null for none. -/
def valueOfJson? : Json → Option (Option String)
  | .null => some none
  | .string value => some (some value)
  | _ => none

/-- In an object the value may be left out. -/
def ofJson? (j : Json) : Option FieldDecl :=
  match j.fields? ["access", "type", "value"] 3 with
  | some [some access, some type, value] => do
    let access ← Access.ofJson? access
    let type ← type.string?
    let value ← valueOfJson? (value.getD .null)
    pure { access, type, value }
  | _ => none

end FieldDecl

namespace Token

def toJson (t : Token) : Json := .string t.text

def ofJson? (j : Json) : Option Token := j.string?.map fun text => ⟨text⟩

end Token

namespace Method

def toJson (m : Method) : Json :=
  .object [("name", .string m.name), ("access", m.access.toJson),
    ("params", .array (m.params.map .string)), ("return_type", .string m.returnType),
    ("body", .array (m.body.map Token.toJson))]

def ofJson? (j : Json) : Option Method :=
  match j.fields? ["name", "access", "params", "return_type", "body"] 5 with
  | some [some name, some access, some params, some returnType, some body] => do
    let name ← name.string?
    let access ← Access.ofJson? access
    let params ← params.list? Json.string?
    let returnType ← returnType.string?
    let body ← body.list? Token.ofJson?
    pure { name, access, params, returnType, body }
  | _ => none

end Method

namespace Contract

def toJson (c : Contract) : Json :=
  .object [("name", .string c.name), ("vars", c.fields.toJson FieldDecl.toJson),
    ("methods", c.methods.toJson Method.toJson), ("imports", c.imports.toJson .string)]

def ofJson? (j : Json) : Option Contract :=
  match j.fields? ["name", "vars", "methods", "imports"] 4 with
  | some [some name, some fields, some methods, some imports] => do
    let name ← name.string?
    let fields ← Table.ofJson? FieldDecl.ofJson? fields
    let methods ← Table.ofJson? Method.ofJson? methods
    let imports ← Table.ofJson? Json.string? imports
    pure { name, fields, methods, imports }
  | _ => none

end Contract

namespace Program

def toJson (p : Program) : Json :=
  .object [("contracts", p.contracts.toJson Contract.toJson)]

def ofJson? (j : Json) : Option Program :=
  match j.fields? ["contracts"] 1 with
  | some [some contracts] => do
    let contracts ← Table.ofJson? Contract.ofJson? contracts
    pure { contracts }
  | _ => none

def canonical (p : Program) : String := p.toJson.compact

/-- The program that a JSON text describes, by way of the value that the text spells: of a member
that is given twice the later one counts, in a record as in a table. A reader that goes from the
text to the fields of a record at once would refuse a field that is given twice. -/
def ofText? (text : String) : Option Program :=
  (Json.ofText? text).bind ofJson?

def fingerprint (p : Program) : String :=
  Digest.hex (Digest.ofBytes p.canonical.toUTF8.data.toList)

end Program

end ContractScript
