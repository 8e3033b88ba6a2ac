import ContractScript.Text.Blank
import ContractScript.Text.Lines

/-!
Line checks of a source text before it is scanned: braces without a partner, and a few declarations
that lack a part. The checks look at characters alone, inside literals too, so a clean text may
still be refused by the grammar and a flagged one may be well formed.
-/

namespace ContractScript

inductive Finding.Kind where
  | extraClosingBrace
  | unclosedBrace
  | missingContractBrace
  | missingParamList
  | missingImportTerminator
deriving DecidableEq, Inhabited

namespace Finding.Kind

def all : List Kind :=
  [extraClosingBrace, unclosedBrace, missingContractBrace, missingParamList,
    missingImportTerminator]

def name : Kind → String
  | extraClosingBrace => "extra_closing_brace"
  | unclosedBrace => "unclosed_brace"
  | missingContractBrace => "missing_contract_brace"
  | missingParamList => "missing_param_list"
  | missingImportTerminator => "missing_import_terminator"

def message : Kind → String
  | extraClosingBrace => "Extra '\x7d'"
  | unclosedBrace => "Unclosed '\x7b'"
  | missingContractBrace => "Expected '\x7b' after 'contract'"
  | missingParamList => "Expected '(' after 'func'"
  | missingImportTerminator => "Import statement must end with ';'"

end Finding.Kind

/-- A flaw and the number of its line, counted from one. -/
structure Finding where
  line : Nat
  kind : Finding.Kind
deriving DecidableEq, Inhabited

namespace Finding

def message (f : Finding) : String := f.kind.message

/-- The line that reports a finding to a reader. -/
def report (f : Finding) : String :=
  s!"[TURBALANCE] Line {f.line}: {f.message}"

def count (kind : Kind) (findings : List Finding) : Nat :=
  findings.countP fun f => f.kind = kind

/-- Matches the braces of one line against `opened`, the lines of the braces still open, innermost
first. The second part of the result is what is open after the line. -/
def braces (line : Nat) : List Nat → List Char → List Finding × List Nat
  | opened, [] => ([], opened)
  | opened, c :: rest =>
    if c = '{' then braces line (line :: opened) rest
    else if c = '}' then
      match opened with
      | [] =>
        let after := braces line [] rest
        (⟨line, .extraClosingBrace⟩ :: after.1, after.2)
      | _ :: opened => braces line opened rest
    else braces line opened rest

/-- Whether a word occurs somewhere in a text. -/
def occurs (word : List Char) : List Char → Bool
  | [] => word.isEmpty
  | c :: rest => word.isPrefixOf (c :: rest) || occurs word rest

def lacksContractBrace (text : List Char) : Bool :=
  "contract".toList.isPrefixOf (Text.trim text) && !text.contains '{'

def lacksParamList (text : List Char) : Bool :=
  occurs "func".toList text && !text.contains '('

def lacksImportTerminator (text : List Char) : Bool :=
  "import".toList.isPrefixOf (Text.trim text) && occurs "aka".toList (Text.trim text) &&
    (Text.trim text).getLast? != some ';'

/-- The flaws of declarations on one line, at most one of each kind. -/
def declarations (line : Nat) (text : List Char) : List Finding :=
  (if lacksContractBrace text then [⟨line, .missingContractBrace⟩] else []) ++
  (if lacksParamList text then [⟨line, .missingParamList⟩] else []) ++
  (if lacksImportTerminator text then [⟨line, .missingImportTerminator⟩] else [])

/-- Checks the lines from number `line` on. What is still open at the end is reported there, the
outermost brace first. -/
def checkFrom (line : Nat) (opened : List Nat) : List (List Char) → List Finding
  | [] => opened.reverse.map fun line => ⟨line, .unclosedBrace⟩
  | text :: rest =>
    let after := braces line opened text
    after.1 ++ declarations line text ++ checkFrom (line + 1) after.2 rest

/-- All findings of a source text. -/
def check (source : String) : List Finding :=
  checkFrom 1 [] (Text.lines source.toList)

end Finding

end ContractScript
