import ContractScript.Proofs.Program.Reading
import ContractScript.Proofs.Statement.Spelling
import ContractScript.Proofs.Token.Layout

/-!
Source texts of statements: a contract whose one method has the statements for its body, with blanks
anywhere between the lexemes and none needed where two lexemes may touch. Main statement: scanning,
reading and compiling such a text give back the statements, in either mode.
-/

namespace ContractScript

open Grammar Token

/-- A name that scans as one identifier, reserved words included. -/
def IsName (name : String) : Prop :=
  name.toList ≠ [] ∧ (∀ c ∈ name.toList, isRunChar c = true) ∧
    ¬∀ c ∈ name.toList, c.isDigit = true

-- characters are finitely many, and an instance must not go through all of them
instance (name : String) : Decidable (IsName name) :=
  decidable_of_iff (name.toList ≠ [] ∧ name.toList.all isRunChar = true ∧
    ¬name.toList.all Char.isDigit = true) (by simp only [IsName, List.all_eq_true])

namespace Operand

/-- What a source text can write: quotes cannot stand in a literal, and a sign is no part of a
number. -/
def Writable : Operand → Prop
  | text contents => '"' ∉ contents.toList
  | integer value => 0 ≤ value
  | name word => IsName word

instance : (operand : Operand) → Decidable operand.Writable
  | text contents => inferInstanceAs (Decidable ('"' ∉ contents.toList))
  | integer value => inferInstanceAs (Decidable (0 ≤ value))
  | name word => inferInstanceAs (Decidable (IsName word))

def lexeme : Operand → Lexeme
  | text contents => .literal contents.toList
  | integer value => .run (Nat.toDigits 10 value.toNatClampNeg)
  | name word => .run word.toList

end Operand

namespace Statement

def Writable : Statement → Prop
  | construct target space cls => IsName target ∧ IsName space ∧ IsName cls
  | call object method args => IsName object ∧ IsName method ∧ ∀ arg ∈ args, arg.Writable
  | print value => value.Writable
  | assign target value => IsName target ∧ value.Writable

instance : (statement : Statement) → Decidable statement.Writable
  | construct .. => inferInstanceAs (Decidable (_ ∧ _))
  | call .. => inferInstanceAs (Decidable (_ ∧ _))
  | print value => inferInstanceAs (Decidable value.Writable)
  | assign .. => inferInstanceAs (Decidable (_ ∧ _))

end Statement

namespace Lexeme

def word (text : String) : Lexeme := .run text.toList

/-- The lexemes of a statement with its `;`. -/
def ofStatement : Statement → List Lexeme
  | .construct target space cls =>
    [word "let", word target, symbol '=', word space, symbol '.', word cls, symbol '(', symbol ')',
      symbol ';']
  | .call object method args =>
    [word object, symbol '.', word method, symbol '('] ++
      (args.map Operand.lexeme).intersperse (symbol ',') ++ [symbol ')', symbol ';']
  | .print value => [word "print", symbol '(', value.lexeme, symbol ')', symbol ';']
  | .assign target value => [word "let", word target, symbol '=', value.lexeme, symbol ';']

/-- The lexemes of `contract App { public func main() { … } }` around statements. -/
def ofStatements (statements : List Statement) : List Lexeme :=
  [word "contract", word "App", symbol '{', word "public", word "func", word "main", symbol '(',
    symbol ')', symbol '{'] ++ statements.flatMap ofStatement ++ [symbol '}', symbol '}']

/-- A lexeme that is complete wherever it stands. -/
def Closed (l : Lexeme) : Prop :=
  l.Valid ∧ ∀ contents, l ≠ .unclosed contents

end Lexeme

namespace Layout

def lexemes (l : Layout) : List Lexeme := l.pieces.map (·.1)

/-- Nothing but blanks between lexemes, and at least one blank between those that may not touch. -/
structure Spaced (l : Layout) : Prop where
  leading : ∀ c ∈ l.leading, Text.isBlank c = true
  gaps : ∀ piece ∈ l.pieces, ∀ c ∈ piece.2, Text.isBlank c = true
  touching : l.pieces.IsChain fun a b => a.2 = [] → a.1.MayTouch b.1

theorem Spaced.valid {l : Layout} (spaced : l.Spaced) (closed : ∀ x ∈ l.lexemes, x.Closed) :
    l.Valid := by
  have each : ∀ piece ∈ l.pieces, piece.1.Closed := by
    intro piece member
    exact closed piece.1 (List.mem_map_of_mem member)
  refine ⟨spaced.leading, spaced.gaps, fun piece member => (each piece member).1, ?_,
    spaced.touching⟩
  intro contents gap member
  exact absurd rfl ((each _ member).2 contents)

theorem tokens_eq (l : Layout) : l.tokens = l.lexemes.map Lexeme.token := by
  simp [tokens, lexemes]

end Layout

namespace IsName

variable {name : String}

theorem isIdentifier (named : IsName name) : Token.isIdentifier ⟨name⟩ = true := by
  obtain ⟨nonempty, plain, notDigits⟩ := named
  have noSymbol : Token.isSymbol ⟨name⟩ = false := by
    have notArrow : (⟨name⟩ : Token) ≠ arrow := by
      intro same
      obtain rfl : name = "->" := congrArg Token.text same
      exact absurd (plain '-' (by decide)) (by decide)
    simp only [Token.isSymbol, notArrow, decide_false, Bool.false_or]
    split
    · next c chars =>
      have isRun := plain c (by rw [chars]; exact List.mem_cons_self)
      cases symbol : isSymbolChar c with
      | false => rfl
      | true => simp [isRunChar, symbol] at isRun
    · rfl
  have noLiteral : Token.isLiteral ⟨name⟩ = false := by
    simp only [Token.isLiteral, Token.contents?]
    split
    · next rest chars =>
      have isRun := plain '"' (by rw [chars]; exact List.mem_cons_self)
      exact absurd isRun (by decide)
    · rfl
  have noInteger : Token.isInteger ⟨name⟩ = false := by
    simpa [Token.isInteger, Text.isDecimal, nonempty] using notDigits
  simp [Token.isIdentifier, noSymbol, noLiteral, noInteger]

theorem closed (named : IsName name) : (Lexeme.word name).Closed :=
  ⟨⟨named.1, named.2.1⟩, fun _ same => by cases same⟩

end IsName

theorem isRunChar_of_isDigit {c : Char} (digit : c.isDigit = true) : isRunChar c = true := by
  have noSymbol : isSymbolChar c = false := by
    cases symbol : isSymbolChar c with
    | false => rfl
    | true =>
      rw [Token.not_isDigit_of_isSymbolChar symbol] at digit
      cases digit
  have noQuote : c ≠ '"' := by
    rintro rfl
    exact absurd digit (by decide)
  have noBlank : Text.isBlank c = false := by
    have range : 48 ≤ c.toNat ∧ c.toNat ≤ 57 := Char.isDigit_iff_toNat.mp digit
    simp [Text.isBlank, Text.blankRanges]
    omega
  simp [isRunChar, noBlank, noSymbol, noQuote]

namespace Lexeme

theorem token_word (text : String) : (word text).token = ⟨text⟩ := by
  simp [word, token]

theorem token_symbols : (symbol '=').token = ⟨"="⟩ ∧ (symbol '.').token = ⟨"."⟩ ∧
    (symbol '(').token = parenOpen ∧ (symbol ')').token = parenClose ∧
    (symbol ',').token = comma ∧ (symbol ';').token = semicolon ∧
    (symbol '{').token = braceOpen ∧ (symbol '}').token = braceClose := by
  decide

theorem closed_symbol_iff {c : Char} : (symbol c).Closed ↔ isSymbolChar c = true :=
  ⟨fun closed => closed.1, fun isSymbol => ⟨isSymbol, fun _ same => by cases same⟩⟩

theorem token_operand (operand : Operand) : operand.lexeme.token = operand.token := by
  cases operand with
  | text contents => rfl
  | integer value => rfl
  | name text => exact token_word text

theorem map_token_ofStatement (statement : Statement) :
    (ofStatement statement).map token = statement.tokens := by
  cases statement <;>
    simp [ofStatement, Statement.tokens, token_word, token_symbols, token_operand,
      Operand.listTokens, map_intersperse, Function.comp_def]

end Lexeme

namespace Operand

variable {operand : Operand}

namespace Writable

theorem spellable (writable : operand.Writable) : operand.Spellable := by
  cases operand with
  | text contents => trivial
  | integer value => exact writable
  | name word => exact IsName.isIdentifier writable

theorem closed (writable : operand.Writable) : operand.lexeme.Closed := by
  cases operand with
  | text contents => exact ⟨writable, fun _ same => by cases same⟩
  | integer value =>
    refine ⟨⟨Nat.toDigits_ne_nil, fun c member => ?_⟩, fun _ same => by cases same⟩
    exact isRunChar_of_isDigit (Nat.isDigit_of_mem_toDigits (by decide) (by decide) member)
  | name word => exact IsName.closed writable

end Writable

end Operand

namespace Statement

variable {statement : Statement}

theorem Writable.spellable (writable : statement.Writable) : statement.Spellable := by
  cases statement with
  | construct target space cls =>
    obtain ⟨targetName, spaceName, clsName⟩ := writable
    exact ⟨targetName.isIdentifier, spaceName.isIdentifier, clsName.isIdentifier⟩
  | call object method args =>
    obtain ⟨objectName, methodName, argsWritable⟩ := writable
    exact ⟨objectName.isIdentifier, methodName.isIdentifier,
      fun arg member => (argsWritable arg member).spellable⟩
  | print value => exact Operand.Writable.spellable writable
  | assign target value =>
    obtain ⟨targetName, valueWritable⟩ := writable
    exact ⟨targetName.isIdentifier, valueWritable.spellable⟩

theorem Writable.spells (writable : statement.Writable) :
    statement.Spells ((Lexeme.ofStatement statement).map Lexeme.token) := by
  rw [Lexeme.map_token_ofStatement]
  exact writable.spellable.spells

theorem Writable.closed (writable : statement.Writable) :
    ∀ l ∈ Lexeme.ofStatement statement, l.Closed := by
  have letWord : (Lexeme.word "let").Closed := IsName.closed (by decide)
  have printWord : (Lexeme.word "print").Closed := IsName.closed (by decide)
  have marks : ∀ c ∈ ['=', '.', '(', ')', ',', ';'], (Lexeme.symbol c).Closed := by
    simp [Lexeme.closed_symbol_iff, isSymbolChar, symbolChars]
  simp only [List.forall_mem_cons] at marks
  cases statement with
  | construct target space cls =>
    obtain ⟨targetName, spaceName, clsName⟩ := writable
    simp [Lexeme.ofStatement, letWord, marks, targetName.closed, spaceName.closed, clsName.closed]
  | call object method args =>
    obtain ⟨objectName, methodName, argsWritable⟩ := writable
    have operands : ∀ l ∈ (args.map Operand.lexeme).intersperse (.symbol ','), l.Closed := by
      intro l member
      rcases mem_intersperse member with rfl | among
      · exact marks.2.2.2.2.1
      · obtain ⟨arg, isArg, rfl⟩ := List.mem_map.mp among
        exact (argsWritable arg isArg).closed
    have head : ∀ l ∈ [Lexeme.word object, .symbol '.', .word method, .symbol '('],
        l.Closed := by
      simp [marks, objectName.closed, methodName.closed]
    have last : ∀ l ∈ [Lexeme.symbol ')', .symbol ';'], l.Closed := by
      simp [marks]
    exact List.forall_mem_append.mpr ⟨List.forall_mem_append.mpr ⟨head, operands⟩, last⟩
  | print value =>
    simp [Lexeme.ofStatement, printWord, marks, Operand.Writable.closed writable]
  | assign target value =>
    obtain ⟨targetName, valueWritable⟩ := writable
    simp [Lexeme.ofStatement, letWord, marks, targetName.closed, valueWritable.closed]

end Statement

namespace Lexeme

variable {statements : List Statement}

/-- The tokens of a body of statements. -/
def bodyTokens (statements : List Statement) : List Token :=
  (statements.map fun s => (ofStatement s).map token).flatten

theorem map_token_ofStatements : (ofStatements statements).map token =
    ⟨"contract"⟩ :: ⟨"App"⟩ :: braceOpen :: ⟨"public"⟩ :: ⟨"func"⟩ :: ⟨"main"⟩ :: parenOpen ::
      parenClose :: braceOpen :: (bodyTokens statements ++ [braceClose, braceClose]) := by
  simp [ofStatements, bodyTokens, token_word, token_symbols, List.flatMap_def, Function.comp_def]

theorem closed_ofStatements (writable : ∀ s ∈ statements, s.Writable) :
    ∀ l ∈ ofStatements statements, l.Closed := by
  have words : ∀ text ∈ ["contract", "App", "public", "func", "main"], (word text).Closed := by
    have names : ∀ text ∈ ["contract", "App", "public", "func", "main"], IsName text := by decide
    exact fun text member => (names text member).closed
  have marks : ∀ c ∈ ['(', ')', '{', '}'], (symbol c).Closed := by
    simp [closed_symbol_iff, isSymbolChar, symbolChars]
  have body : ∀ l ∈ statements.flatMap ofStatement, l.Closed := by
    intro l member
    obtain ⟨s, among, inside⟩ := List.mem_flatMap.mp member
    exact (writable s among).closed l inside
  simp only [List.forall_mem_cons] at words marks
  refine List.forall_mem_append.mpr ⟨List.forall_mem_append.mpr ⟨?_, body⟩, ?_⟩
  · simp [words, marks]
  · simp [marks]

theorem bodyTokens_plain (writable : ∀ s ∈ statements, s.Writable) :
    ∀ t ∈ bodyTokens statements, t ≠ braceOpen ∧ t ≠ braceClose := by
  intro t member
  obtain ⟨part, isPart, inside⟩ := List.mem_flatten.mp member
  obtain ⟨s, among, rfl⟩ := List.mem_map.mp isPart
  exact (writable s among).spells.mem_ne_brace inside

end Lexeme

namespace Grammar

theorem Balanced.of_plain {body : List Token}
    (plain : ∀ t ∈ body, t ≠ braceOpen ∧ t ≠ braceClose) : Balanced 0 body := by
  induction body with
  | nil => exact Balanced.nil_iff.mpr rfl
  | cons t body ih =>
    obtain ⟨⟨notOpen, notClose⟩, later⟩ := List.forall_mem_cons.mp plain
    exact (Balanced.other_iff notOpen notClose).mpr (ih later)

end Grammar

namespace Program

/-- The method that the statements of a source text are the body of. -/
def mainMethod (body : List Token) : Method :=
  ⟨"main", .exposed, [], Method.voidType, body⟩

def ofMain (body : List Token) : Program :=
  .ofContracts [.ofDeclarations "App" [.method (mainMethod body)]]

theorem derives_ofMain {body : List Token}
    (plain : ∀ t ∈ body, t ≠ braceOpen ∧ t ≠ braceClose) :
    Derives (⟨"contract"⟩ :: ⟨"App"⟩ :: braceOpen :: ⟨"public"⟩ :: ⟨"func"⟩ :: ⟨"main"⟩ ::
      parenOpen :: parenClose :: braceOpen :: (body ++ [braceClose, braceClose])) (ofMain body) := by
  have noParams : parenClose ∉ ([] : List Token) := List.not_mem_nil
  have noType : Annotation arrow Method.voidType (braceOpen :: (body ++ [braceClose, braceClose]))
      Method.voidType (braceOpen :: (body ++ [braceClose, braceClose])) :=
    .absent (by simp [braceOpen, arrow])
  have member := Member.method .exposed ⟨"main"⟩ noParams noType (.of_plain plain)
  exact ⟨_, .contract ⟨"App"⟩ (.next member (.close [])) .done, rfl⟩

theorem entry_ofMain (body : List Token) :
    ∃ contract, (ofMain body).entry {} = .ok (contract, mainMethod body) := by
  refine ⟨.ofDeclarations "App" [.method (mainMethod body)], ?_⟩
  have contracts : (ofMain body).contracts.get? "App" =
      some (.ofDeclarations "App" [.method (mainMethod body)]) :=
    Table.get?_insert_self ..
  have methods : (Contract.ofDeclarations "App" [.method (mainMethod body)]).methods.get? "main" =
      some (mainMethod body) :=
    Table.get?_insert_self ..
  simp [entry, contracts, methods]

/-- A source text of statements is read as a program whose entry method has exactly these
statements, in either mode. -/
theorem compile_of_written {statements : List Statement} {source : Layout}
    (writable : ∀ s ∈ statements, s.Writable) (spaced : source.Spaced)
    (written : source.lexemes = Lexeme.ofStatements statements) :
    ∃ program contract method, ofSource (String.ofList source.text) = .ok program ∧
      program.entry {} = .ok (contract, method) ∧
      ∀ mode, method.compile mode = .ok statements := by
  obtain ⟨contract, entry⟩ := entry_ofMain (Lexeme.bodyTokens statements)
  refine ⟨_, contract, _, ?_, entry, fun mode => ?_⟩
  · have valid : source.Valid := spaced.valid (written ▸ Lexeme.closed_ofStatements writable)
    have scanned : scan (String.ofList source.text) = source.tokens := by
      rw [scan, String.toList_ofList, Layout.scanFrom_text valid]
    rw [ofSource, scanned, Layout.tokens_eq, written, Lexeme.map_token_ofStatements,
      ofTokens_eq_ok_iff_accepts, ← derives_iff_accepts]
    exact derives_ofMain (Lexeme.bodyTokens_plain writable)
  · have spelled : List.Forall₂ Statement.Spells statements
        (statements.map fun s => (Lexeme.ofStatement s).map Lexeme.token) := by
      rw [List.forall₂_map_right_iff, List.forall₂_same]
      exact fun s member => (writable s member).spells
    exact Statement.compileFrom_of_spells spelled mode "main" _

/-- Names that are reserved words, a text with braces and a line feed in it, and the largest
integer. -/
def oddStatements : List Statement :=
  [.construct "let" "print" "contract", .call "let" "func" [.text "\x7d \x7b\nlet", .name "var"],
    .call "a" "b" [], .assign "public" (.integer 9223372036854775807), .print (.name "print")]

/-- Their source text with a line break behind every run, and no other blanks. -/
def oddSource : Layout :=
  ⟨[], (Lexeme.ofStatements oddStatements).map fun l =>
    (l, match l with
      | .run _ => ['\n']
      | _ => [])⟩

theorem compile_of_written_odd :
    (∀ s ∈ oddStatements, s.Writable) ∧ oddSource.Spaced ∧
    oddSource.lexemes = Lexeme.ofStatements oddStatements ∧
    ∃ program contract method, ofSource (String.ofList oddSource.text) = .ok program ∧
      program.entry {} = .ok (contract, method) ∧
      ∀ mode, method.compile mode = .ok oddStatements := by
  have writable : ∀ s ∈ oddStatements, s.Writable := by decide
  have spaced : oddSource.Spaced := by
    have blank : (oddSource.pieces.all fun piece => piece.2.all Text.isBlank) = true := by
      decide +kernel
    refine ⟨fun c member => absurd member List.not_mem_nil, fun piece member => ?_, ?_⟩
    · exact List.all_eq_true.mp (List.all_eq_true.mp blank piece member)
    · simp [oddSource, oddStatements, Lexeme.ofStatements, Lexeme.ofStatement, Lexeme.word,
        Operand.lexeme, Lexeme.MayTouch]
  have written : oddSource.lexemes = Lexeme.ofStatements oddStatements := by
    simp [oddSource, Layout.lexemes, Function.comp_def]
  exact ⟨writable, spaced, written, compile_of_written writable spaced written⟩

end Program

end ContractScript
