import ContractScript.Text.Decimal

/-!
JSON values. A number keeps its spelling, so that whoever reads it decides which numbers it takes.
The members of an object keep their order.
-/

namespace ContractScript

inductive Json where
  | null
  | bool (value : Bool)
  | number (spelling : String)
  | string (contents : String)
  | array (items : List Json)
  | object (members : List (String × Json))
deriving Inhabited

namespace Json

def ofNat (n : Nat) : Json := number (toString n)

def string? : Json → Option String
  | string contents => some contents
  | _ => none

def array? : Json → Option (List Json)
  | array items => some items
  | _ => none

def object? : Json → Option (List (String × Json))
  | object members => some members
  | _ => none

/-- The member of an object under a name. -/
def get? : Json → String → Option Json
  | object members, name => members.lookup name
  | _, _ => none

/-- A whole number that is spelled as plain digits. -/
def nat? : Json → Option Nat
  | number spelling =>
    if Text.isDecimal spelling.toList then some (Text.decimalValue spelling.toList) else none
  | _ => none

/-- All items of an array, each read by `item`. -/
def list? {α : Type} (item : Json → Option α) (j : Json) : Option (List α) :=
  j.array?.bind (·.mapM item)

/-- The values of a record's fields, in the order of `names`. A record is an object, in which fields
may be missing and others may stand, or an array that gives at least the `least` first fields. -/
def fields? (names : List String) (least : Nat) : Json → Option (List (Option Json))
  | object members => some (names.map fun name => members.lookup name)
  | array items =>
    if least ≤ items.length ∧ items.length ≤ names.length then
      some (items.map some ++ List.replicate (names.length - items.length) none)
    else none
  | _ => none

/-- A name out of a fixed set, given as text or as the one member of an object, which is null. -/
def choice? : Json → Option String
  | string name => some name
  | object [(name, null)] => some name
  | _ => none

end Json

end ContractScript
