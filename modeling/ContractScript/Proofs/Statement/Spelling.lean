import ContractScript.Proofs.Program.Grammar
import ContractScript.Proofs.Statement.Order
import Mathlib.Data.List.Forall2

/-!
Statements spelled out as tokens, each in its shape and with its final `;`. A spelling at the front
of a body is read as its statement in either mode, whatever stands behind it. So a body made of
spellings reads as the list of their statements. A statement whose names are identifiers has a
spelling, the list of its tokens.
-/

namespace ContractScript

open Token

section

variable {α β : Type} {separator a : α}

theorem mem_intersperse {as : List α} (member : a ∈ as.intersperse separator) :
    a = separator ∨ a ∈ as := by
  induction as with
  | nil => cases member
  | cons first as ih =>
    cases as with
    | nil => exact .inr member
    | cons next as =>
      have split : a = first ∨ a = separator ∨ a ∈ (next :: as).intersperse separator := by
        simpa using member
      rcases split with rfl | rfl | later
      · exact .inr List.mem_cons_self
      · exact .inl rfl
      · exact (ih later).imp_right (List.mem_cons_of_mem _)

theorem map_intersperse (f : α → β) (as : List α) :
    (as.intersperse separator).map f = (as.map f).intersperse (f separator) := by
  induction as with
  | nil => rfl
  | cons first as ih =>
    cases as with
    | nil => rfl
    | cons next as => simpa using ih

end

namespace Token

theorem contents?_literal (contents : List Char) :
    (literal contents).contents? = some (String.ofList contents) := by
  simp [contents?, literal]

theorem not_isSymbol_literal (contents : List Char) : (literal contents).isSymbol = false := by
  have notArrow : literal contents ≠ arrow := by
    intro same
    have chars := congrArg (fun t => t.text.toList.head?) same
    simp [literal, arrow] at chars
  simp only [isSymbol, notArrow, decide_false, Bool.false_or]
  split
  · next c same => simp [literal] at same
  · rfl

theorem not_isDigit_of_isSymbolChar {c : Char} (symbol : isSymbolChar c = true) :
    c.isDigit = false := by
  have all : symbolChars.all (fun c => !c.isDigit) = true := by decide
  have member : c ∈ symbolChars := by simpa [isSymbolChar] using symbol
  simpa using List.all_eq_true.mp all c member

theorem contents?_eq_none_of_isInteger {t : Token} (integer : t.isInteger = true) :
    t.contents? = none := by
  simp only [isInteger, Text.isDecimal, Bool.and_eq_true] at integer
  have digits := List.all_eq_true.mp integer.2
  simp only [contents?]
  split
  · next rest chars =>
    have quote := digits '"' (by rw [chars]; exact List.mem_cons_self)
    exact absurd quote (by decide)
  · rfl

theorem not_isSymbol_of_isInteger {t : Token} (integer : t.isInteger = true) :
    t.isSymbol = false := by
  simp only [isInteger, Text.isDecimal, Bool.and_eq_true] at integer
  have digits := List.all_eq_true.mp integer.2
  have notArrow : t ≠ arrow := by
    rintro rfl
    exact absurd (digits '-' (by decide)) (by decide)
  simp only [isSymbol, notArrow, decide_false, Bool.false_or]
  split
  · next c chars =>
    have digit := digits c (by rw [chars]; exact List.mem_cons_self)
    cases symbol : isSymbolChar c with
    | false => rfl
    | true =>
      rw [not_isDigit_of_isSymbolChar symbol] at digit
      cases digit
  · rfl

theorem ne_of_not_isSymbol {t symbol : Token} (plain : t.isSymbol = false)
    (isSymbol : symbol.isSymbol = true) : t ≠ symbol := by
  rintro rfl
  rw [plain] at isSymbol
  cases isSymbol

end Token

namespace Text

theorem isDecimal_toDigits (n : Nat) : isDecimal (Nat.toDigits 10 n) = true := by
  have digits : ∀ c ∈ Nat.toDigits 10 n, c.isDigit = true := by
    intro c member
    exact Nat.isDigit_of_mem_toDigits (by decide) (by decide) member
  simpa [isDecimal, Nat.toDigits_ne_nil] using digits

theorem decimalValue_toDigits (n : Nat) : decimalValue (Nat.toDigits 10 n) = n :=
  Nat.ofDigitChars_toDigits (by decide) (by decide)

end Text

namespace Operand

/-- The token stands for the operand. Any spelling of an integer in digits does, leading zeros
included. -/
inductive Spells : Operand → Token → Prop
  | text (contents : List Char) : Spells (.text (String.ofList contents)) (literal contents)
  | integer {t : Token} (digits : t.isInteger = true)
      (inRange : Text.decimalValue t.text.toList ≤ maxInteger) :
      Spells (.integer (Int64.ofNat (Text.decimalValue t.text.toList))) t
  | name {t : Token} (named : t.isIdentifier = true) : Spells (.name t.text) t

namespace Spells

variable {operand : Operand} {t : Token} {rest : List Token}

theorem not_isSymbol (spelled : Spells operand t) : t.isSymbol = false := by
  cases spelled with
  | text contents => exact not_isSymbol_literal contents
  | integer digits inRange => exact not_isSymbol_of_isInteger digits
  | name named => exact not_isSymbol_of_isIdentifier named

theorem ofToken_eq (spelled : Spells operand t) : ofToken t = .ok operand := by
  cases spelled with
  | text contents => simp [ofToken, contents?_literal]
  | integer digits inRange =>
    simp [ofToken, contents?_eq_none_of_isInteger digits, digits, inRange]
  | name named => exact ofToken_of_isIdentifier named

end Spells

/-- Operands in a row, with a comma between neighbours. -/
def listTokens (operands : List Token) : List Token :=
  operands.intersperse comma

theorem not_isSymbol_of_spells {operands : List Operand} {ts : List Token}
    (spelled : List.Forall₂ Spells operands ts) : ∀ t ∈ ts, t.isSymbol = false := by
  induction spelled with
  | nil => simp
  | cons first later ih => exact List.forall_mem_cons.mpr ⟨first.not_isSymbol, ih⟩

theorem listFrom_of_spells {operand : Operand} {operands : List Operand} {t : Token}
    {ts : List Token} (first : Spells operand t) (later : List.Forall₂ Spells operands ts)
    (rest : List Token) :
    listFrom (listTokens (t :: ts) ++ parenClose :: rest) =
      .ok (some (operand :: operands, rest)) := by
  induction later generalizing operand t with
  | nil =>
    have closes : listFrom (t :: parenClose :: rest) = .ok (some ([operand], rest)) := by
      simp [listFrom, first.not_isSymbol, first.ofToken_eq, parenClose]
    exact closes
  | @cons next nextToken operands ts spelled later ih =>
    have separated : listFrom (t :: comma :: (listTokens (nextToken :: ts) ++ parenClose :: rest)) =
        .ok (some (operand :: next :: operands, rest)) := by
      rw [listFrom.eq_def]
      simp [first.not_isSymbol, first.ofToken_eq, comma, ih spelled]
    exact separated

theorem arguments_of_spells {operands : List Operand} {ts : List Token}
    (spelled : List.Forall₂ Spells operands ts) (rest : List Token) :
    arguments (listTokens ts ++ parenClose :: rest) = .ok (some (operands, rest)) := by
  cases spelled with
  | nil => rfl
  | @cons operand t operands ts first later =>
    have notClose : t.text ≠ ")" :=
      text_ne (ne_of_not_isSymbol first.not_isSymbol (by decide))
    have list := listFrom_of_spells first later rest
    obtain ⟨tail, split⟩ : ∃ tail, listTokens (t :: ts) ++ parenClose :: rest = t :: tail := by
      cases ts <;> exact ⟨_, rfl⟩
    rw [split] at list ⊢
    rw [arguments, if_neg notClose, list]

/-! ### The token of an operand -/

/-- What a token can stand for: a name that is an identifier, and a number without a sign. -/
def Spellable : Operand → Prop
  | text _ => True
  | integer value => 0 ≤ value
  | name word => isIdentifier ⟨word⟩ = true

instance : (operand : Operand) → Decidable operand.Spellable
  | text _ => inferInstanceAs (Decidable True)
  | integer value => inferInstanceAs (Decidable (0 ≤ value))
  | name word => inferInstanceAs (Decidable (isIdentifier ⟨word⟩ = true))

/-- The token of an operand, an integer without leading zeros. -/
def token : Operand → Token
  | text contents => literal contents.toList
  | integer value => ⟨String.ofList (Nat.toDigits 10 value.toNatClampNeg)⟩
  | name word => ⟨word⟩

theorem toNatClampNeg_le (value : Int64) : value.toNatClampNeg ≤ maxInteger := by
  have below := value.toInt_lt
  have cut : value.toNatClampNeg = value.toInt.toNat := rfl
  simp only [cut, maxInteger]
  omega

theorem Spellable.spells {operand : Operand} (spellable : operand.Spellable) :
    operand.Spells operand.token := by
  cases operand with
  | text contents =>
    have spelled := Spells.text contents.toList
    rwa [String.ofList_toList] at spelled
  | integer value =>
    let digits := Nat.toDigits 10 value.toNatClampNeg
    have same : Text.decimalValue (⟨String.ofList digits⟩ : Token).text.toList =
        value.toNatClampNeg := by
      simp [digits, Text.decimalValue_toDigits]
    have spelled : Spells (.integer _) ⟨String.ofList digits⟩ :=
      .integer (by simp [isInteger, digits, Text.isDecimal_toDigits])
        (by rw [same]; exact toNatClampNeg_le value)
    rw [same, Int64.ofNat_toNatClampNeg value spellable] at spelled
    exact spelled
  | name word => exact .name spellable

theorem Spells.spellable {operand : Operand} {t : Token} (spelled : operand.Spells t) :
    operand.Spellable := by
  cases spelled with
  | text contents => trivial
  | integer digits inRange =>
    have below : Text.decimalValue t.text.toList < 2 ^ 63 := by
      simp only [maxInteger] at inRange
      omega
    have value := Int64.toInt_ofNat_of_lt below
    rw [Spellable, Int64.le_iff_toInt_le, value]
    simp
  | name named => exact named

theorem spellable_of_spells {operands : List Operand} {ts : List Token}
    (spelled : List.Forall₂ Spells operands ts) : ∀ operand ∈ operands, operand.Spellable := by
  induction spelled with
  | nil => simp
  | cons first later ih => exact List.forall_mem_cons.mpr ⟨first.spellable, ih⟩

end Operand

namespace Statement

/-- The tokens are the statement in its shape, with the `;` that ends it. -/
inductive Spells : Statement → List Token → Prop
  | construct {target space cls : Token} (targetNamed : target.isIdentifier = true)
      (spaceNamed : space.isIdentifier = true) (clsNamed : cls.isIdentifier = true) :
      Spells (.construct target.text space.text cls.text)
        [⟨"let"⟩, target, ⟨"="⟩, space, ⟨"."⟩, cls, parenOpen, parenClose, semicolon]
  | call {object method : Token} {args : List Operand} {ts : List Token}
      (objectNamed : object.isIdentifier = true) (methodNamed : method.isIdentifier = true)
      (spelled : List.Forall₂ Operand.Spells args ts) :
      Spells (.call object.text method.text args)
        ([object, ⟨"."⟩, method, parenOpen] ++ Operand.listTokens ts ++ [parenClose, semicolon])
  | print {value : Operand} {t : Token} (spelled : value.Spells t) :
      Spells (.print value) [⟨"print"⟩, parenOpen, t, parenClose, semicolon]
  | assign {target : Token} {value : Operand} {t : Token}
      (targetNamed : target.isIdentifier = true) (spelled : value.Spells t) :
      Spells (.assign target.text value) [⟨"let"⟩, target, ⟨"="⟩, t, semicolon]

/-- The shape that a statement is written in. -/
def shape : Statement → Shape
  | construct .. => .construct
  | call .. => .call
  | print _ => .print
  | assign .. => .assign

/-- The symbols that statements are put together with. -/
def punctuation : List Token :=
  [⟨"="⟩, ⟨"."⟩, parenOpen, parenClose, comma, semicolon]

namespace Spells

open Shape

variable {statement : Statement} {tokens : List Token}

theorem ne_nil (spelled : statement.Spells tokens) : tokens ≠ [] := by
  cases spelled <;> simp

theorem begins (spelled : statement.Spells tokens) (rest : List Token) :
    statement.shape.Begins (tokens ++ rest) := by
  cases spelled with
  | construct targetNamed => exact ⟨rfl, targetNamed⟩
  | call => rfl
  | print => exact ⟨rfl, rfl⟩
  | assign targetNamed => exact ⟨rfl, targetNamed⟩

/-- In front of its `;`, a spelling is all of its shape but the end. -/
theorem exists_head (spelled : statement.Spells tokens) :
    ∃ head, tokens = head ++ [semicolon] ∧ ∀ mode rest,
      attempt mode (head ++ rest) statement.shape = .ok (finish mode statement rest) := by
  cases spelled with
  | @construct target space cls targetNamed spaceNamed clsNamed =>
    refine ⟨[⟨"let"⟩, target, ⟨"="⟩, space, ⟨"."⟩, cls, parenOpen, parenClose], rfl, ?_⟩
    simp [shape, attempt, attemptConstruct, targetNamed, spaceNamed, clsNamed, parenOpen,
      parenClose]
  | @call object method args ts objectNamed methodNamed spelled =>
    refine ⟨[object, ⟨"."⟩, method, parenOpen] ++ Operand.listTokens ts ++ [parenClose],
      by simp, fun mode rest => ?_⟩
    have read := Operand.arguments_of_spells spelled rest
    simp [shape, attempt, attemptCall, objectNamed, methodNamed, parenOpen, read]
  | @print value t spelled =>
    refine ⟨[⟨"print"⟩, parenOpen, t, parenClose], rfl, ?_⟩
    simp [shape, attempt, attemptPrint, spelled.not_isSymbol, spelled.ofToken_eq, parenOpen,
      parenClose]
  | @assign target value t targetNamed spelled =>
    refine ⟨[⟨"let"⟩, target, ⟨"="⟩, t], rfl, ?_⟩
    simp [shape, attempt, attemptAssign, targetNamed, spelled.not_isSymbol, spelled.ofToken_eq]

theorem attempt_eq (spelled : statement.Spells tokens) (mode : Mode) (rest : List Token) :
    attempt mode (tokens ++ rest) statement.shape = .ok (some (statement, rest)) := by
  obtain ⟨head, rfl, read⟩ := spelled.exists_head
  have ended : finish mode statement (semicolon :: rest) = some (statement, rest) := by
    cases mode <;> rfl
  rw [← List.append_cons, read, ended]

/-- A shape that may be tried before that of the statement has no match. An assignment begins as a
construction does, but has its `;` where a construction wants a dot. -/
theorem attempt_fails (spelled : statement.Spells tokens) {earlier : Shape}
    (before : MayPrecede earlier statement.shape) (mode : Mode) (rest : List Token) :
    attempt mode (tokens ++ rest) earlier = .ok none := by
  by_cases both : earlier.isLet = true ∧ statement.shape.isLet = true
  · obtain ⟨rfl, assigned⟩ := before.eq_of_isLet both
    cases spelled with
    | construct | call | print => cases assigned
    | assign =>
      simp only [attempt, attemptConstruct]
      split
      · next same =>
        simp only [List.cons_append, List.nil_append, List.cons.injEq] at same
        obtain ⟨-, -, -, -, rfl, -⟩ := same
        simp [semicolon]
      · rfl
  · exact (spelled.begins rest).others_fail before.1.symm (fun lets => both lets.symm) mode

/-- A statement at the front of a body is found there, in either mode. -/
theorem attemptFirst_eq (spelled : statement.Spells tokens) {shapes : List Shape}
    (ordered : shapes.Pairwise MayPrecede) (among : statement.shape ∈ shapes) (mode : Mode)
    (rest : List Token) :
    attemptFirst mode (tokens ++ rest) shapes = .ok (some (statement, rest)) := by
  have found := spelled.attempt_eq mode rest
  have first := attemptFirst_of_pairwise ordered among (by rw [found]; simp)
    fun _ before => spelled.attempt_fails before mode rest
  rw [first, found]

theorem mem_cases (spelled : statement.Spells tokens) :
    ∀ t ∈ tokens, t.isSymbol = false ∨ t ∈ punctuation := by
  have letWord : isSymbol ⟨"let"⟩ = false := by decide
  have printWord : isSymbol ⟨"print"⟩ = false := by decide
  have named : ∀ {t : Token}, t.isIdentifier = true → t.isSymbol = false :=
    not_isSymbol_of_isIdentifier
  cases spelled with
  | construct targetNamed spaceNamed clsNamed =>
    simp [punctuation, letWord, named targetNamed, named spaceNamed, named clsNamed]
  | @call object method args ts objectNamed methodNamed spelled =>
    have operands : ∀ t ∈ Operand.listTokens ts, t.isSymbol = false ∨ t ∈ punctuation := by
      intro t member
      rcases mem_intersperse member with rfl | among
      · exact .inr (by decide)
      · exact .inl (Operand.not_isSymbol_of_spells spelled t among)
    have head : ∀ t ∈ [object, ⟨"."⟩, method, parenOpen], t.isSymbol = false ∨ t ∈ punctuation := by
      simp [punctuation, named objectNamed, named methodNamed]
    have last : ∀ t ∈ [parenClose, semicolon], t.isSymbol = false ∨ t ∈ punctuation := by
      simp [punctuation]
    exact List.forall_mem_append.mpr ⟨List.forall_mem_append.mpr ⟨head, operands⟩, last⟩
  | print spelled =>
    simp [punctuation, printWord, spelled.not_isSymbol]
  | assign targetNamed spelled =>
    simp [punctuation, letWord, named targetNamed, spelled.not_isSymbol]

/-- No brace stands in a spelling: the braces of a text literal are part of its token. -/
theorem mem_ne_brace (spelled : statement.Spells tokens) {t : Token} (member : t ∈ tokens) :
    t ≠ braceOpen ∧ t ≠ braceClose := by
  rcases spelled.mem_cases t member with plain | mark
  · exact ⟨ne_of_not_isSymbol plain (by decide), ne_of_not_isSymbol plain (by decide)⟩
  · have apart : ∀ t ∈ punctuation, t ≠ braceOpen ∧ t ≠ braceClose := by decide
    exact apart t mark

end Spells

theorem shape_mem_inOrder (statement : Statement) : statement.shape ∈ Shape.inOrder := by
  cases statement <;> simp [shape, Shape.inOrder]

/-- Spellings at the front of a body read as their statements, whatever stands behind them. -/
theorem compileFrom_append_of_spells {statements : List Statement} {parts : List (List Token)}
    (spelled : List.Forall₂ Spells statements parts) (mode : Mode) (method : String) (total : Nat)
    (rest : List Token) :
    compileFrom Shape.inOrder mode method total (parts.flatten ++ rest) =
      (compileFrom Shape.inOrder mode method total rest).map (statements ++ ·) := by
  induction spelled with
  | nil => cases later : compileFrom Shape.inOrder mode method total rest <;> simp [later, Except.map]
  | @cons statement part statements parts first later ih =>
    have found := first.attemptFirst_eq Shape.inOrder_mayPrecede statement.shape_mem_inOrder mode
      (parts.flatten ++ rest)
    obtain ⟨t, tail, rfl⟩ := List.exists_cons_of_ne_nil first.ne_nil
    rw [List.flatten_cons, List.append_assoc, List.cons_append] at *
    rw [compileFrom_of_statement found, ih]
    cases compileFrom Shape.inOrder mode method total rest <;> rfl

theorem compileFrom_of_spells {statements : List Statement} {parts : List (List Token)}
    (spelled : List.Forall₂ Spells statements parts) (mode : Mode) (method : String) (total : Nat) :
    compileFrom Shape.inOrder mode method total parts.flatten = .ok statements := by
  have read := compileFrom_append_of_spells spelled mode method total []
  simpa [compileFrom, Except.map] using read

/-! ### The tokens of a statement -/

def Spellable : Statement → Prop
  | construct target space cls =>
    isIdentifier ⟨target⟩ = true ∧ isIdentifier ⟨space⟩ = true ∧ isIdentifier ⟨cls⟩ = true
  | call object method args =>
    isIdentifier ⟨object⟩ = true ∧ isIdentifier ⟨method⟩ = true ∧ ∀ arg ∈ args, arg.Spellable
  | print value => value.Spellable
  | assign target value => isIdentifier ⟨target⟩ = true ∧ value.Spellable

instance : (statement : Statement) → Decidable statement.Spellable
  | construct .. => inferInstanceAs (Decidable (_ ∧ _))
  | call .. => inferInstanceAs (Decidable (_ ∧ _))
  | print value => inferInstanceAs (Decidable value.Spellable)
  | assign .. => inferInstanceAs (Decidable (_ ∧ _))

/-- The tokens of a statement with its `;`. -/
def tokens : Statement → List Token
  | construct target space cls =>
    [⟨"let"⟩, ⟨target⟩, ⟨"="⟩, ⟨space⟩, ⟨"."⟩, ⟨cls⟩, parenOpen, parenClose, semicolon]
  | call object method args =>
    [⟨object⟩, ⟨"."⟩, ⟨method⟩, parenOpen] ++ Operand.listTokens (args.map Operand.token) ++
      [parenClose, semicolon]
  | print value => [⟨"print"⟩, parenOpen, value.token, parenClose, semicolon]
  | assign target value => [⟨"let"⟩, ⟨target⟩, ⟨"="⟩, value.token, semicolon]

theorem Spellable.spells {statement : Statement} (spellable : statement.Spellable) :
    statement.Spells statement.tokens := by
  cases statement with
  | construct target space cls =>
    obtain ⟨targetNamed, spaceNamed, clsNamed⟩ := spellable
    exact .construct targetNamed spaceNamed clsNamed
  | call object method args =>
    obtain ⟨objectNamed, methodNamed, argsSpellable⟩ := spellable
    have operands : List.Forall₂ Operand.Spells args (args.map Operand.token) := by
      rw [List.forall₂_map_right_iff, List.forall₂_same]
      exact fun arg member => (argsSpellable arg member).spells
    exact .call objectNamed methodNamed operands
  | print value => exact .print (Operand.Spellable.spells spellable)
  | assign target value =>
    obtain ⟨targetNamed, valueSpellable⟩ := spellable
    exact .assign targetNamed valueSpellable.spells

theorem Spells.spellable {statement : Statement} {part : List Token}
    (spelled : statement.Spells part) : statement.Spellable := by
  cases spelled with
  | construct targetNamed spaceNamed clsNamed => exact ⟨targetNamed, spaceNamed, clsNamed⟩
  | call objectNamed methodNamed spelled =>
    exact ⟨objectNamed, methodNamed, Operand.spellable_of_spells spelled⟩
  | print spelled => exact spelled.spellable
  | assign targetNamed spelled => exact ⟨targetNamed, spelled.spellable⟩

theorem forall₂_tokens {statements : List Statement}
    (spellable : ∀ statement ∈ statements, statement.Spellable) :
    List.Forall₂ Spells statements (statements.map tokens) := by
  rw [List.forall₂_map_right_iff, List.forall₂_same]
  exact fun statement member => (spellable statement member).spells

end Statement

end ContractScript
