import ContractScript.Proofs.Statement.Spelling

/-!
What a shape finds at the front of a list of tokens, in either mode. Main statements: where it finds
a statement, the statement is spelled there but for its end; and it fails with an error just where
it comes to a number beyond the integers in place of an operand.
-/

namespace ContractScript

open Token

namespace Token

theorem ofText_eq {t : Token} {text : String} (same : t.text = text) : t = ⟨text⟩ :=
  congrArg Token.mk same

theorem eq_literal_of_contents? {t : Token} {contents : String}
    (inside : t.contents? = some contents) : t = literal contents.toList := by
  unfold contents? at inside
  split at inside
  · next rest chars =>
    split at inside
    · next closed =>
      have shut : rest.dropLast ++ ['"'] = rest :=
        List.dropLast_append_getLast? _ (Option.mem_def.mpr closed)
      have text : t.text = String.ofList ('"' :: rest.dropLast ++ ['"']) := by
        rw [List.cons_append, shut, ← chars, String.ofList_toList]
      rw [← Option.some.inj inside, literal, String.toList_ofList]
      exact ofText_eq text
    · cases inside
  · cases inside

/-- Digits for a number beyond the integers. -/
def IsOversized (t : Token) : Prop :=
  t.isInteger = true ∧ Operand.maxInteger < Text.decimalValue t.text.toList

instance (t : Token) : Decidable t.IsOversized :=
  inferInstanceAs (Decidable (_ ∧ _))

end Token

namespace Operand

theorem spells_of_ofToken {t : Token} {operand : Operand} (plain : t.isSymbol = false)
    (read : ofToken t = .ok operand) : operand.Spells t := by
  unfold ofToken at read
  split at read
  · next contents inside =>
    cases read
    have spelled := Spells.text contents.toList
    rwa [String.ofList_toList, ← eq_literal_of_contents? inside] at spelled
  · next notLiteral =>
    split at read
    · next digits =>
      simp only at read
      split at read
      · next inRange =>
        cases read
        exact .integer digits inRange
      · cases read
    · next notDigits =>
      cases read
      exact .name (by simp [isIdentifier, isLiteral, plain, notLiteral, notDigits])

theorem spells_of_listFrom {tokens rest : List Token} {operands : List Operand}
    (read : listFrom tokens = .ok (some (operands, rest))) :
    ∃ t ts, List.Forall₂ Spells operands (t :: ts) ∧
      tokens = listTokens (t :: ts) ++ parenClose :: rest := by
  fun_induction listFrom tokens generalizing operands with
  | case5 t notSymbol operand first separator tail isComma more after inner ih =>
    cases read
    obtain ⟨next, ts, spelled, rfl⟩ := ih inner
    have plain : t.isSymbol = false := by simpa using notSymbol
    refine ⟨t, next :: ts, .cons (spells_of_ofToken plain first) spelled, ?_⟩
    rw [ofText_eq isComma]
    rfl
  | case6 t notSymbol operand first separator tail isComma refused ih =>
    exact absurd read (refused _ _)
  | case7 t notSymbol operand first separator tail notComma isClose =>
    cases read
    have plain : t.isSymbol = false := by simpa using notSymbol
    refine ⟨t, [], .cons (spells_of_ofToken plain first) .nil, ?_⟩
    rw [ofText_eq isClose]
    rfl
  | _ => cases read

theorem spells_of_arguments {tokens rest : List Token} {args : List Operand}
    (read : arguments tokens = .ok (some (args, rest))) :
    ∃ ts, List.Forall₂ Spells args ts ∧ tokens = listTokens ts ++ parenClose :: rest := by
  unfold arguments at read
  split at read
  · cases read
  · split at read
    · next t behind isClose =>
      cases read
      refine ⟨[], .nil, ?_⟩
      rw [ofText_eq isClose]
      rfl
    · obtain ⟨t, ts, spelled, split⟩ := spells_of_listFrom read
      exact ⟨t :: ts, spelled, split⟩

/-! ### Numbers beyond the integers -/

theorem ofToken_eq_error_iff {t : Token} {e : Error} :
    ofToken t = .error e ↔ t.IsOversized ∧ e = .integerRange t.text := by
  constructor
  · intro failed
    simp only [ofToken] at failed
    split at failed
    · cases failed
    · split at failed
      · next digits =>
        split at failed
        · cases failed
        · next beyond =>
          cases failed
          exact ⟨⟨digits, Nat.lt_of_not_le beyond⟩, rfl⟩
      · cases failed
  · rintro ⟨⟨digits, beyond⟩, rfl⟩
    simp [ofToken, contents?_eq_none_of_isInteger digits, digits, beyond]

/-- Operands in a row, each with a comma behind it. -/
def openTokens (operands : List Token) : List Token :=
  operands.flatMap fun t => [t, comma]

theorem listFrom_of_oversized {operands : List Operand} {ts : List Token} {t : Token}
    (spelled : List.Forall₂ Spells operands ts) (oversized : t.IsOversized) (rest : List Token) :
    listFrom (openTokens ts ++ t :: rest) = .error (.integerRange t.text) := by
  induction spelled with
  | nil =>
    have plain := not_isSymbol_of_isInteger oversized.1
    have refused := ofToken_eq_error_iff.mpr ⟨oversized, rfl⟩
    have stops : listFrom (t :: rest) = .error (.integerRange t.text) := by
      rw [listFrom.eq_def]
      simp [plain, refused]
    exact stops
  | @cons operand first operands ts spelled later ih =>
    have goesOn : listFrom (first :: comma :: (openTokens ts ++ t :: rest)) =
        .error (.integerRange t.text) := by
      rw [listFrom.eq_def]
      simp [spelled.not_isSymbol, spelled.ofToken_eq, comma, ih]
    exact goesOn

theorem oversized_of_listFrom {tokens : List Token} {e : Error}
    (failed : listFrom tokens = .error e) :
    ∃ operands ts t rest, List.Forall₂ Spells operands ts ∧ t.IsOversized ∧
      tokens = openTokens ts ++ t :: rest ∧ e = .integerRange t.text := by
  fun_induction listFrom tokens with
  | case3 t rest notSymbol e' refused =>
    cases failed
    obtain ⟨oversized, same⟩ := ofToken_eq_error_iff.mp refused
    exact ⟨[], [], t, rest, .nil, oversized, rfl, same⟩
  | case6 t notSymbol operand first separator tail isComma refused ih =>
    obtain ⟨operands, ts, big, rest, spelled, oversized, rfl, same⟩ := ih failed
    have plain : t.isSymbol = false := by simpa using notSymbol
    refine ⟨operand :: operands, t :: ts, big, rest, .cons (spells_of_ofToken plain first) spelled,
      oversized, ?_, same⟩
    rw [ofText_eq isComma]
    rfl
  | _ => cases failed

theorem arguments_eq_error_iff {tokens : List Token} {e : Error} :
    arguments tokens = .error e ↔
      ∃ operands ts t rest, List.Forall₂ Spells operands ts ∧ t.IsOversized ∧
        tokens = openTokens ts ++ t :: rest ∧ e = .integerRange t.text := by
  constructor
  · intro failed
    unfold arguments at failed
    split at failed
    · cases failed
    · split at failed
      · cases failed
      · exact oversized_of_listFrom failed
  · rintro ⟨operands, ts, t, rest, spelled, oversized, rfl, rfl⟩
    have failed := listFrom_of_oversized spelled oversized rest
    obtain ⟨first, tail, split, plain⟩ : ∃ first tail,
        openTokens ts ++ t :: rest = first :: tail ∧ first.isSymbol = false := by
      cases spelled with
      | nil => exact ⟨t, rest, rfl, not_isSymbol_of_isInteger oversized.1⟩
      | cons spelled later => exact ⟨_, _, rfl, spelled.not_isSymbol⟩
    have notClose : first.text ≠ ")" := text_ne (ne_of_not_isSymbol plain (by decide))
    rw [split] at failed ⊢
    rw [arguments, if_neg notClose, failed]

end Operand

namespace Shape

theorem eq_of_finish {mode : Mode} {statement found : Statement} {tokens rest : List Token}
    (ended : finish mode statement tokens = some (found, rest)) :
    found = statement ∧ terminated mode tokens = some rest := by
  simp only [finish, Option.map_eq_some_iff, Prod.mk.injEq] at ended
  obtain ⟨after, closed, rfl, rfl⟩ := ended
  exact ⟨rfl, closed⟩

theorem eq_of_terminated_strict {tokens rest : List Token}
    (closed : terminated .strict tokens = some rest) : tokens = semicolon :: rest := by
  cases tokens with
  | nil => cases closed
  | cons t behind =>
    simp only [terminated] at closed
    split at closed
    · next isEnd =>
      cases closed
      rw [ofText_eq isEnd]
      rfl
    · cases closed

/-- What a shape finds is spelled at the front of the tokens but for the `;`, which the mode deals
with. -/
theorem exists_head_of_attempt {mode : Mode} {tokens rest : List Token} {shape : Shape}
    {statement : Statement} (found : attempt mode tokens shape = .ok (some (statement, rest))) :
    ∃ head after, statement.Spells (head ++ [semicolon]) ∧ statement.shape = shape ∧
      tokens = head ++ after ∧ terminated mode after = some rest := by
  cases shape with
  | construct =>
    simp only [attempt, Except.ok.injEq] at found
    unfold attemptConstruct at found
    split at found
    · split at found
      · next word target equals space dot cls left right behind head =>
        obtain ⟨isLet, targetNamed, isEquals, spaceNamed, isDot, clsNamed, isOpen, isClose⟩ := head
        obtain ⟨rfl, closed⟩ := eq_of_finish found
        refine ⟨[⟨"let"⟩, target, ⟨"="⟩, space, ⟨"."⟩, cls, parenOpen, parenClose], behind,
          .construct targetNamed spaceNamed clsNamed, rfl, ?_, closed⟩
        rw [ofText_eq isLet, ofText_eq isEquals, ofText_eq isDot, ofText_eq isOpen,
          ofText_eq isClose]
        rfl
      · cases found
    · cases found
  | call =>
    simp only [attempt] at found
    unfold attemptCall at found
    split at found
    · split at found
      · next object dot method left behind head =>
        obtain ⟨objectNamed, isDot, methodNamed, isOpen⟩ := head
        split at found
        · cases found
        · cases found
        · next args after read =>
          obtain ⟨ts, spelled, rfl⟩ := Operand.spells_of_arguments read
          obtain ⟨rfl, closed⟩ := eq_of_finish (Except.ok.inj found)
          have whole := Statement.Spells.call objectNamed methodNamed spelled
          refine ⟨[object, ⟨"."⟩, method, parenOpen] ++ Operand.listTokens ts ++ [parenClose],
            after, by simpa using whole, rfl, ?_, closed⟩
          rw [ofText_eq isDot, ofText_eq isOpen]
          simp [parenOpen]
      · cases found
    · cases found
  | print =>
    simp only [attempt] at found
    unfold attemptPrint at found
    split at found
    · split at found
      · next word left value behind head =>
        obtain ⟨isPrint, isOpen, plain⟩ := head
        split at found
        · cases found
        · next operand read =>
          split at found
          · cases found
          · split at found
            · next right after isClose =>
              obtain ⟨rfl, closed⟩ := eq_of_finish (Except.ok.inj found)
              refine ⟨[⟨"print"⟩, parenOpen, value, parenClose], after,
                .print (Operand.spells_of_ofToken plain read), rfl, ?_, closed⟩
              rw [ofText_eq isPrint, ofText_eq isOpen, ofText_eq isClose]
              rfl
            · cases found
      · cases found
    · cases found
  | assign =>
    simp only [attempt] at found
    unfold attemptAssign at found
    split at found
    · split at found
      · next word target equals value behind head =>
        obtain ⟨isLet, targetNamed, isEquals, plain⟩ := head
        split at found
        · cases found
        · next operand read =>
          obtain ⟨rfl, closed⟩ := eq_of_finish (Except.ok.inj found)
          refine ⟨[⟨"let"⟩, target, ⟨"="⟩, value], behind,
            .assign targetNamed (Operand.spells_of_ofToken plain read), rfl, ?_, closed⟩
          rw [ofText_eq isLet, ofText_eq isEquals]
          rfl
      · cases found
    · cases found

/-! ### Numbers beyond the integers -/

/-- The shape is begun at the front of the tokens and comes to an operand that is a number beyond
the integers. Nothing is said of what stands behind the number. -/
inductive Overflows : Shape → List Token → Token → Prop
  | call {object method t : Token} {args : List Operand} {ts : List Token}
      (objectNamed : object.isIdentifier = true) (methodNamed : method.isIdentifier = true)
      (spelled : List.Forall₂ Operand.Spells args ts) (oversized : t.IsOversized)
      (rest : List Token) :
      Overflows call
        ([object, ⟨"."⟩, method, parenOpen] ++ (Operand.openTokens ts ++ t :: rest)) t
  | print {t : Token} (oversized : t.IsOversized) (rest : List Token) :
      Overflows print (⟨"print"⟩ :: parenOpen :: t :: rest) t
  | assign {target t : Token} (targetNamed : target.isIdentifier = true)
      (oversized : t.IsOversized) (rest : List Token) :
      Overflows assign (⟨"let"⟩ :: target :: ⟨"="⟩ :: t :: rest) t

namespace Overflows

variable {shape : Shape} {tokens : List Token} {t : Token}

theorem isOversized (overflows : shape.Overflows tokens t) : t.IsOversized := by
  cases overflows <;> assumption

theorem mem (overflows : shape.Overflows tokens t) : t ∈ tokens := by
  cases overflows <;> simp

theorem attempt_eq (overflows : shape.Overflows tokens t) (mode : Mode) :
    attempt mode tokens shape = .error (.integerRange t.text) := by
  have refused := Operand.ofToken_eq_error_iff.mpr ⟨overflows.isOversized, rfl⟩
  have plain := not_isSymbol_of_isInteger overflows.isOversized.1
  cases overflows with
  | call objectNamed methodNamed spelled oversized rest =>
    have failed := Operand.arguments_eq_error_iff.mpr
      ⟨_, _, t, rest, spelled, oversized, rfl, rfl⟩
    simp [attempt, attemptCall, objectNamed, methodNamed, parenOpen, failed]
  | print => simp [attempt, attemptPrint, parenOpen, plain, refused]
  | assign targetNamed => simp [attempt, attemptAssign, targetNamed, plain, refused]

/-- Where an assignment comes to a number, a construction wants a name. -/
theorem construct_fails (overflows : Shape.assign.Overflows tokens t) (mode : Mode) :
    attempt mode tokens .construct = .ok none := by
  have unnamed : t.isIdentifier = false := by
    simp [isIdentifier, overflows.isOversized.1]
  cases overflows with
  | assign targetNamed oversized rest =>
    simp only [attempt, attemptConstruct]
    split
    · next same =>
      simp only [List.cons.injEq] at same
      obtain ⟨-, -, -, rfl, -⟩ := same
      simp [unnamed]
    · rfl

end Overflows

theorem attempt_eq_error_iff {mode : Mode} {tokens : List Token} {shape : Shape} {e : Error} :
    attempt mode tokens shape = .error e ↔
      ∃ t, shape.Overflows tokens t ∧ e = .integerRange t.text := by
  refine ⟨fun failed => ?_, ?_⟩
  · cases shape with
    | construct => cases failed
    | call =>
      simp only [attempt] at failed
      unfold attemptCall at failed
      split at failed
      · split at failed
        · next object dot method left behind head =>
          obtain ⟨objectNamed, isDot, methodNamed, isOpen⟩ := head
          split at failed
          · next refused =>
            cases failed
            obtain ⟨args, ts, t, rest, spelled, oversized, rfl, rfl⟩ :=
              Operand.arguments_eq_error_iff.mp refused
            refine ⟨t, ?_, rfl⟩
            rw [ofText_eq isDot, ofText_eq isOpen]
            exact .call objectNamed methodNamed spelled oversized rest
          · cases failed
          · cases failed
        · cases failed
      · cases failed
    | print =>
      simp only [attempt] at failed
      unfold attemptPrint at failed
      split at failed
      · split at failed
        · next word left value behind head =>
          split at failed
          · next refused =>
            cases failed
            obtain ⟨oversized, rfl⟩ := Operand.ofToken_eq_error_iff.mp refused
            refine ⟨value, ?_, rfl⟩
            rw [ofText_eq head.1, ofText_eq head.2.1]
            exact .print oversized behind
          · split at failed
            · cases failed
            · split at failed <;> cases failed
        · cases failed
      · cases failed
    | assign =>
      simp only [attempt] at failed
      unfold attemptAssign at failed
      split at failed
      · split at failed
        · next word target equals value behind head =>
          obtain ⟨isLet, targetNamed, isEquals, plain⟩ := head
          split at failed
          · next refused =>
            cases failed
            obtain ⟨oversized, rfl⟩ := Operand.ofToken_eq_error_iff.mp refused
            refine ⟨value, ?_, rfl⟩
            rw [ofText_eq isLet, ofText_eq isEquals]
            exact .assign targetNamed oversized behind
          · cases failed
        · cases failed
      · cases failed
  · rintro ⟨t, overflows, rfl⟩
    exact overflows.attempt_eq mode

/-- An assignment found where a construction is takes the name in front of the dot. -/
theorem assign_of_construct {mode : Mode} {tokens rest behind : List Token}
    {target space cls : String} {other : Statement}
    (constructs : attempt mode tokens construct = .ok (some (.construct target space cls, rest)))
    (assigns : attempt mode tokens assign = .ok (some (other, behind))) :
    other = .assign target (.name space) := by
  simp only [attempt, Except.ok.injEq] at constructs
  unfold attemptConstruct at constructs
  split at constructs
  · split at constructs
    · next word target equals space dot cls left right after head =>
      obtain ⟨isLet, targetNamed, isEquals, spaceNamed, -⟩ := head
      obtain ⟨same, -⟩ := eq_of_finish constructs
      cases same
      have plain := not_isSymbol_of_isIdentifier spaceNamed
      have named := ofToken_of_isIdentifier spaceNamed
      have found : finish mode (.assign target.text (.name space.text))
          (dot :: cls :: left :: right :: after) = some (other, behind) := by
        simpa [attempt, attemptAssign, isLet, targetNamed, isEquals, plain, named] using assigns
      exact (eq_of_finish found).1
    · cases constructs
  · cases constructs

end Shape

end ContractScript
