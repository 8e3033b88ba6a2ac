/-! Numbers spelled in decimal digits. -/

namespace ContractScript.Text

/-- At least one character, and digits only. -/
def isDecimal (cs : List Char) : Bool :=
  !cs.isEmpty && cs.all Char.isDigit

def digitValue (d : Char) : Nat := d.toNat - '0'.toNat

/-- The number that digits spell, the first digit the highest; leading zeros do not count. -/
def decimalValue (digits : List Char) : Nat :=
  digits.foldl (fun value d => 10 * value + digitValue d) 0

end ContractScript.Text
