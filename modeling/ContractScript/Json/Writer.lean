import ContractScript.Json

/-!
Writing JSON, compactly or over several lines. Quotes, backslashes and the characters below U+0020
are escaped, the common ones by a letter; all other characters stand for themselves.
-/

namespace ContractScript.Json

def hexDigit (n : Nat) : Char :=
  Nat.digitChar (n % 16)

/-- A character as it stands inside a quoted text. -/
def escape (c : Char) : List Char :=
  if c = '"' then ['\\', '"']
  else if c = '\\' then ['\\', '\\']
  else if c = '\x08' then ['\\', 'b']
  else if c = '\x09' then ['\\', 't']
  else if c = '\x0a' then ['\\', 'n']
  else if c = '\x0c' then ['\\', 'f']
  else if c = '\x0d' then ['\\', 'r']
  else if c.toNat < 0x20 then
    ['\\', 'u', '0', '0', hexDigit (c.toNat / 16), hexDigit c.toNat]
  else [c]

def quote (contents : List Char) : List Char :=
  '"' :: contents.flatMap escape ++ ['"']

mutual

/-- The written form without any space. -/
def compactChars : Json → List Char
  | null => "null".toList
  | bool true => "true".toList
  | bool false => "false".toList
  | number spelling => spelling.toList
  | string contents => quote contents.toList
  | array items => '[' :: compactItems items ++ [']']
  | object members => '{' :: compactMembers members ++ ['}']

def compactItems : List Json → List Char
  | [] => []
  | [item] => compactChars item
  | item :: next :: rest => compactChars item ++ ',' :: compactItems (next :: rest)

def compactMembers : List (String × Json) → List Char
  | [] => []
  | [(name, value)] => quote name.toList ++ ':' :: compactChars value
  | (name, value) :: next :: rest =>
    quote name.toList ++ ':' :: compactChars value ++ ',' :: compactMembers (next :: rest)

end

def compact (j : Json) : String := String.ofList (compactChars j)

/-- A line break and the indentation of a nesting level, two blanks each. -/
def newline (level : Nat) : List Char := '\n' :: List.replicate (2 * level) ' '

mutual

/-- The written form with one item or member a line, inside `level` others. -/
def prettyChars (level : Nat) : Json → List Char
  | null => "null".toList
  | bool true => "true".toList
  | bool false => "false".toList
  | number spelling => spelling.toList
  | string contents => quote contents.toList
  | array [] => "[]".toList
  | array (item :: items) =>
    '[' :: newline (level + 1) ++ prettyItems (level + 1) (item :: items) ++ newline level ++ [']']
  | object [] => ['{', '}']
  | object (member :: members) =>
    '{' :: newline (level + 1) ++ prettyMembers (level + 1) (member :: members) ++
      newline level ++ ['}']

def prettyItems (level : Nat) : List Json → List Char
  | [] => []
  | [item] => prettyChars level item
  | item :: next :: rest =>
    prettyChars level item ++ ',' :: newline level ++ prettyItems level (next :: rest)

def prettyMembers (level : Nat) : List (String × Json) → List Char
  | [] => []
  | [(name, value)] => quote name.toList ++ ':' :: ' ' :: prettyChars level value
  | (name, value) :: next :: rest =>
    quote name.toList ++ ':' :: ' ' :: prettyChars level value ++
      ',' :: newline level ++ prettyMembers level (next :: rest)

end

def pretty (j : Json) : String := String.ofList (prettyChars 0 j)

end ContractScript.Json
