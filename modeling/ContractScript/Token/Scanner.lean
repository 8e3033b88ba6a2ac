import ContractScript.Text.Blank
import ContractScript.Token

/-!
Scanning a source text into tokens. Blanks and symbols end a run of other characters; a quote
opens a literal that goes on, through anything, to the next quote or to the end of the text. Every
text scans: a literal that the text leaves open is closed.
-/

namespace ContractScript.Token

/-- The token under way, its characters in reverse: a run, or the inside of a literal. -/
inductive Pending where
  | run (reversed : List Char)
  | quoted (reversed : List Char)

/-- The token of a finished run, if the run holds anything. -/
def ofRun (reversed : List Char) : List Token :=
  if reversed.isEmpty then [] else [⟨String.ofList reversed.reverse⟩]

def scanFrom : Pending → List Char → List Token
  | .run acc, [] => ofRun acc
  | .run acc, '-' :: '>' :: rest => ofRun acc ++ arrow :: scanFrom (.run []) rest
  | .run acc, c :: rest =>
    if Text.isBlank c then ofRun acc ++ scanFrom (.run []) rest
    else if isSymbolChar c then ofRun acc ++ ofChar c :: scanFrom (.run []) rest
    else if c = '"' then ofRun acc ++ scanFrom (.quoted []) rest
    else scanFrom (.run (c :: acc)) rest
  | .quoted acc, [] => [literal acc.reverse]
  | .quoted acc, c :: rest =>
    if c = '"' then literal acc.reverse :: scanFrom (.run []) rest
    else scanFrom (.quoted (c :: acc)) rest

def scan (source : String) : List Token :=
  scanFrom (.run []) source.toList

end ContractScript.Token
