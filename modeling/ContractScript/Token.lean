import ContractScript.Text.Decimal

/-!
Tokens: pieces of text, classified by what they hold. Every text is a token of some class, so a
token list that was not scanned from a source is classified by the same rules.
-/

namespace ContractScript

structure Token where
  text : String
deriving DecidableEq, Inhabited

/-- The characters that always stand alone as a token. -/
def symbolChars : List Char :=
  ['{', '}', '(', ')', ':', '=', ',', '+', '-', '.', ';', '>']

def isSymbolChar (c : Char) : Bool :=
  symbolChars.contains c

namespace Token

/-- The one symbol of two characters. -/
def arrow : Token := ⟨"->"⟩

/-- The token of a single character. -/
def ofChar (c : Char) : Token := ⟨String.singleton c⟩

/-- The literal that holds the given characters between its quotes. -/
def literal (contents : List Char) : Token := ⟨String.ofList ('"' :: contents ++ ['"'])⟩

/-- What stands between the quotes of a text literal. A lone quote is no literal. -/
def contents? (t : Token) : Option String :=
  match t.text.toList with
  | '"' :: rest => if rest.getLast? = some '"' then some (String.ofList rest.dropLast) else none
  | _ => none

def isLiteral (t : Token) : Bool :=
  t.contents?.isSome

/-- Decimal digits only; a sign is a symbol of its own. -/
def isInteger (t : Token) : Bool :=
  Text.isDecimal t.text.toList

def isSymbol (t : Token) : Bool :=
  decide (t = arrow) ||
    match t.text.toList with
    | [c] => isSymbolChar c
    | _ => false

/-- Whatever can name a field, a method, a contract or an alias. -/
def isIdentifier (t : Token) : Bool :=
  !t.isSymbol && !t.isLiteral && !t.isInteger

end Token

end ContractScript
