import ContractScript.Json

/-!
Reading JSON texts. The readers take the front of a text and give back the rest. Every value takes
at least one character, so the length of the text bounds how often one reader calls another.
-/

namespace ContractScript.Json

def isSpace (c : Char) : Bool := c = ' ' || c = '\t' || c = '\n' || c = '\r'

def skipSpace (cs : List Char) : List Char := cs.dropWhile isSpace

/-- The rest of a text after a fixed beginning. -/
def after? (word : List Char) (cs : List Char) : Option (List Char) :=
  if word.isPrefixOf cs then some (cs.drop word.length) else none

def hexValue? (c : Char) : Option Nat :=
  if c.isDigit then some (c.toNat - '0'.toNat)
  else if 'a' ≤ c ∧ c ≤ 'f' then some (c.toNat - 'a'.toNat + 10)
  else if 'A' ≤ c ∧ c ≤ 'F' then some (c.toNat - 'A'.toNat + 10)
  else none

/-- The code unit of four hexadecimal digits. -/
def unit? (a b c d : Char) : Option Nat := do
  let a ← hexValue? a
  let b ← hexValue? b
  let c ← hexValue? c
  let d ← hexValue? d
  pure (((a * 16 + b) * 16 + c) * 16 + d)

/-- Whether a code unit is the first half of a surrogate pair. -/
def isHigh (unit : Nat) : Bool := decide (0xD800 ≤ unit ∧ unit ≤ 0xDBFF)

/-- Whether a code unit is the second half of a surrogate pair. -/
def isLow (unit : Nat) : Bool := decide (0xDC00 ≤ unit ∧ unit ≤ 0xDFFF)

/-- The character of a code unit by itself. -/
def ofUnit? (unit : Nat) : Option Char :=
  if isLow unit then none else some (Char.ofNat unit)

/-- The character of two halves of a surrogate pair. -/
def ofPair? (high low : Nat) : Option Char :=
  if isLow low then some (Char.ofNat (0x10000 + (high - 0xD800) * 0x400 + (low - 0xDC00)))
  else none

/-- The character of an escape that is a single letter. -/
def ofLetter? (letter : Char) : Option Char :=
  [('"', '"'), ('\\', '\\'), ('/', '/'), ('b', '\x08'), ('t', '\t'), ('n', '\n'), ('f', '\x0c'),
    ('r', '\r')].lookup letter

/-- Puts a character in front of a text that is being read. -/
def push (c : Char) (read : List Char × List Char) : List Char × List Char :=
  (c :: read.1, read.2)

/-- The inside of a quoted text, up to and with the closing quote. After the first half of a
surrogate pair, which is held in `half`, the second one must follow. -/
def quoted? (half : Option Nat) : List Char → Option (List Char × List Char)
  | '\\' :: 'u' :: a :: b :: c :: d :: rest =>
    match half, unit? a b c d with
    | _, none => none
    | none, some unit =>
      if isHigh unit then quoted? (some unit) rest
      else match ofUnit? unit with
        | some c => (quoted? none rest).map (push c)
        | none => none
    | some high, some unit =>
      match ofPair? high unit with
      | some c => (quoted? none rest).map (push c)
      | none => none
  | '\\' :: letter :: rest =>
    match half, ofLetter? letter with
    | none, some c => (quoted? none rest).map (push c)
    | _, _ => none
  | '"' :: rest => if half.isNone then some ([], rest) else none
  | c :: rest =>
    if half.isSome ∨ c = '\\' ∨ c.toNat < 0x20 then none else (quoted? none rest).map (push c)
  | [] => none

/-- The digits at the front of a text. -/
def digits (cs : List Char) : List Char × List Char :=
  (cs.takeWhile Char.isDigit, cs.dropWhile Char.isDigit)

/-- The digits before the point of a number: no leading zero, unless it is the only digit. -/
def whole? (cs : List Char) : Option (List Char × List Char) :=
  match digits cs with
  | ([], _) => none
  | (['0'], rest) => some (['0'], rest)
  | ('0' :: _, _) => none
  | read => some read

/-- A point and digits, if there is a point. -/
def fraction? : List Char → Option (List Char × List Char)
  | '.' :: rest =>
    match digits rest with
    | ([], _) => none
    | (ds, rest) => some ('.' :: ds, rest)
  | cs => some ([], cs)

/-- The exponent, if there is one. -/
def exponent? : List Char → Option (List Char × List Char)
  | c :: rest =>
    if c = 'e' ∨ c = 'E' then
      let (sign, rest) : List Char × List Char := match rest with
        | '+' :: rest => (['+'], rest)
        | '-' :: rest => (['-'], rest)
        | rest => ([], rest)
      match digits rest with
      | ([], _) => none
      | (ds, rest) => some (c :: sign ++ ds, rest)
    else some ([], c :: rest)
  | [] => some ([], [])

/-- The spelling of a number. -/
def number? (cs : List Char) : Option (List Char × List Char) := do
  let (sign, cs) : List Char × List Char := match cs with
    | '-' :: rest => (['-'], rest)
    | cs => ([], cs)
  let (ws, cs) ← whole? cs
  let (fs, cs) ← fraction? cs
  let (es, cs) ← exponent? cs
  pure (sign ++ ws ++ fs ++ es, cs)

/-- Puts a member in front of those that follow it, unless one of them has its name. -/
def consMember (name : String) (value : Json) (members : List (String × Json)) :
    List (String × Json) :=
  if (members.lookup name).isSome then members else (name, value) :: members

mutual

def value? : Nat → List Char → Option (Json × List Char)
  | 0, _ => none
  | bound + 1, cs =>
    match skipSpace cs with
    | '"' :: rest => (quoted? none rest).map fun read => (.string (String.ofList read.1), read.2)
    | '[' :: rest =>
      match skipSpace rest with
      | ']' :: rest => some (.array [], rest)
      | rest => (items? bound rest).map fun read => (.array read.1, read.2)
    | '{' :: rest =>
      match skipSpace rest with
      | '}' :: rest => some (.object [], rest)
      | rest => (members? bound rest).map fun read => (.object read.1, read.2)
    | 'n' :: rest => (after? "ull".toList rest).map fun rest => (.null, rest)
    | 't' :: rest => (after? "rue".toList rest).map fun rest => (.bool true, rest)
    | 'f' :: rest => (after? "alse".toList rest).map fun rest => (.bool false, rest)
    | cs => (number? cs).map fun read => (.number (String.ofList read.1), read.2)

/-- Items separated by commas, up to and with the closing bracket. -/
def items? : Nat → List Char → Option (List Json × List Char)
  | 0, _ => none
  | bound + 1, cs =>
    match value? bound cs with
    | none => none
    | some (item, rest) =>
      match skipSpace rest with
      | ',' :: rest => (items? bound rest).map fun read => (item :: read.1, read.2)
      | ']' :: rest => some ([item], rest)
      | _ => none

/-- Members separated by commas, up to and with the closing brace. Of two members with one name the
later one counts. -/
def members? : Nat → List Char → Option (List (String × Json) × List Char)
  | 0, _ => none
  | bound + 1, cs =>
    match skipSpace cs with
    | '"' :: rest =>
      match quoted? none rest with
      | none => none
      | some (name, rest) =>
        match skipSpace rest with
        | ':' :: rest =>
          match value? bound rest with
          | none => none
          | some (value, rest) =>
            match skipSpace rest with
            | ',' :: rest =>
              (members? bound rest).map fun read =>
                (consMember (String.ofList name) value read.1, read.2)
            | '}' :: rest => some ([(String.ofList name, value)], rest)
            | _ => none
        | _ => none
    | _ => none

end

/-- The value that a whole text spells. -/
def ofText? (text : String) : Option Json :=
  match value? (2 * text.toList.length + 1) text.toList with
  | some (value, rest) => if (skipSpace rest).isEmpty then some value else none
  | none => none

end ContractScript.Json
