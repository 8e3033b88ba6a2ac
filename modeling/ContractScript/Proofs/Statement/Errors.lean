import ContractScript.Proofs.Statement.Reading

/-!
Errors of reading a body: a number beyond the integers, or a token that starts no statement. Main
statement: a number is the error where reading comes to a position at which some shape is begun and
has the number in place of an operand, whether or not the shape is completed behind it.
-/

namespace ContractScript

theorem Statement.compile_error {mode : Mode} {method : String} {body : List Token} {e : Error}
    (failed : compile mode method body = .error e) :
    (∃ digits, e = .integerRange digits) ∨ ∃ index token, e = .unrecognized method index token := by
  obtain ⟨pieces, rest, -, ⟨-, same⟩ | ⟨t, -, same⟩ | ⟨-, t, behind, -, -, -, same⟩⟩ :=
    compile_outcome mode method body
  · rw [same] at failed
    cases failed
  · rw [same] at failed
    exact .inl ⟨t.text, (Except.error.inj failed).symm⟩
  · rw [same] at failed
    exact .inr ⟨_, t.text, (Except.error.inj failed).symm⟩

theorem Method.compile_error {method : Method} {mode : Mode} {e : Error}
    (failed : method.compile mode = .error e) :
    (∃ digits, e = .integerRange digits) ∨
      ∃ index token, e = .unrecognized method.name index token :=
  Statement.compile_error failed

namespace Statement

variable {mode : Mode} {method : String} {body rest : List Token} {pieces : List Piece} {t : Token}

theorem Reads.append {tokens behind : List Token} {more : List Piece}
    (reads : Reads mode tokens pieces behind) (later : Reads mode behind more rest) :
    Reads mode tokens (pieces ++ more) rest := by
  induction reads with
  | here behind => exact later
  | statement leads _ ih => exact .statement leads (ih later)
  | passed lenient absent inRange _ ih => exact .passed lenient absent inRange (ih later)

/-- Reading does not get away from a position at which it fails. -/
theorem Reads.eq_of_attemptFirst_error {e : Error} (reads : Reads mode body pieces rest)
    (failed : Shape.attemptFirst mode body Shape.inOrder = .error e) : rest = body := by
  cases reads with
  | here => rfl
  | statement leads later =>
    rw [leads.attemptFirst_eq Shape.inOrder_mayPrecede (mem_inOrder _)] at failed
    cases failed
  | passed lenient absent inRange later =>
    rw [(attemptFirst_eq_none_iff mem_inOrder).mpr ⟨absent, inRange⟩] at failed
    cases failed

/-- Lenient reading reports no position, so the length of the body does not matter to it. -/
theorem compileFrom_lenient_total (total other : Nat) (tokens : List Token) :
    compileFrom Shape.inOrder .lenient method total tokens =
      compileFrom Shape.inOrder .lenient method other tokens := by
  obtain ⟨pieces, rest, reads, stops⟩ := exists_reads .lenient tokens
  rw [reads.compileFrom_eq, reads.compileFrom_eq]
  cases stops with
  | finished => rw [compileFrom, compileFrom]
  | overflow overflows => rw [compileFrom_of_overflows overflows, compileFrom_of_overflows overflows]
  | unrecognized strict => cases strict

/-- A body fails for the digits of a number just where reading comes to a position at which a shape
is begun and has that number, beyond the integers, in place of an operand. At a position where this
is not so and no statement stands, strict reading reports the token and lenient reading passes over
it. -/
theorem compile_fails_for_number (mode : Mode) (method : String) (body : List Token) :
    (∀ digits, compile mode method body = .error (.integerRange digits) ↔
      ∃ pieces rest t, Reads mode body pieces rest ∧ Overflows rest t ∧ t.text = digits) ∧
    ∀ pieces t rest, Reads mode body pieces (t :: rest) → Absent mode (t :: rest) →
      (∀ big, ¬Overflows (t :: rest) big) →
      (mode = .strict → compile mode method body =
        .error (.unrecognized method (Piece.body pieces).length t.text)) ∧
      (mode = .lenient → Reads mode body (pieces ++ [.passed t]) rest ∧
        compile mode method body =
          (compile mode method rest).map (Piece.statements pieces ++ ·)) := by
  refine ⟨fun digits => compile_eq_integerRange_iff, fun pieces t rest reads absent inRange => ?_⟩
  refine ⟨?_, ?_⟩
  · rintro rfl
    exact compile_eq_unrecognized_iff.mpr
      ⟨rfl, rfl, pieces, t, rest, reads, absent, inRange, rfl, rfl⟩
  · rintro rfl
    have further : Reads .lenient body (pieces ++ [.passed t]) rest :=
      reads.append (.passed rfl absent inRange (.here rest))
    refine ⟨further, ?_⟩
    have same : Piece.statements (pieces ++ [.passed t]) = Piece.statements pieces := by
      simp [Piece.statements, Piece.statement?]
    rw [compile, further.compileFrom_eq, same, compile,
      compileFrom_lenient_total body.length rest.length]

/-- A token passed over, and an operand beyond the integers in a call that never ends. -/
def cutShort : List Token :=
  ["5", "a", ".", "f", "(", "x", ",", "9223372036854775808"].map Token.mk

theorem compile_fails_for_number_cutShort :
    compile .lenient "main" cutShort = .error (.integerRange "9223372036854775808") ∧
    Absent .lenient cutShort ∧ (∀ big, ¬Overflows cutShort big) ∧
    Reads .lenient cutShort [.passed ⟨"5"⟩] cutShort.tail ∧
    compile .lenient "main" cutShort = (compile .lenient "main" cutShort.tail).map ([] ++ ·) := by
  have missed : Shape.attemptFirst .lenient cutShort Shape.inOrder = .ok none := by decide +kernel
  obtain ⟨absent, inRange⟩ := (attemptFirst_eq_none_iff mem_inOrder).mp missed
  obtain ⟨fails, goesOn⟩ := compile_fails_for_number .lenient "main" cutShort
  obtain ⟨reads, same⟩ := (goesOn [] ⟨"5"⟩ cutShort.tail (.here _) absent inRange).2 rfl
  have args : List.Forall₂ Operand.Spells [.name "x"] [⟨"x"⟩] := .cons (.name (by decide)) .nil
  have overflows : Overflows cutShort.tail ⟨"9223372036854775808"⟩ :=
    ⟨.call, @Shape.Overflows.call ⟨"a"⟩ ⟨"f"⟩ _ _ _ (by decide) (by decide) args (by decide) []⟩
  exact ⟨(fails _).mpr ⟨_, _, _, reads, overflows, rfl⟩, absent, inRange, reads, same⟩

/-! ### A number in no statement -/

/-- The token with a small number in place of any other. -/
def shrunk (t : Token) : Token :=
  if t.isInteger then ⟨"0"⟩ else t

/-- A print of two operands, which no shape allows for, in front of a statement. -/
def crowded : List Token :=
  ["print", "(", "9223372036854775808", ",", "1", ")", ";", "print", "(", "\"a\"", ")", ";"].map
    Token.mk

/-- The number fails the body in either mode, though it stands in no statement: whatever number is
put in its place, no statement stands at the only position that reading comes to. With a small one
strict reading reports the first token, and lenient reading goes on to the statement behind. -/
theorem number_in_no_statement :
    (∀ mode, compile mode "main" crowded = .error (.integerRange "9223372036854775808") ∧
      ∀ pieces rest, Reads mode crowded pieces rest → Absent mode (rest.map shrunk)) ∧
    compile .strict "main" (crowded.map shrunk) = .error (.unrecognized "main" 0 "print") ∧
    compile .lenient "main" (crowded.map shrunk) = .ok [.print (.text "a")] := by
  refine ⟨fun mode => ⟨by cases mode <;> decide +kernel, fun pieces rest reads => ?_⟩,
    by decide +kernel, by decide +kernel⟩
  have failed : Shape.attemptFirst mode crowded Shape.inOrder =
      .error (.integerRange "9223372036854775808") := by cases mode <;> decide +kernel
  have missed : Shape.attemptFirst mode (crowded.map shrunk) Shape.inOrder = .ok none := by
    cases mode <;> decide +kernel
  obtain rfl := reads.eq_of_attemptFirst_error failed
  exact ((attemptFirst_eq_none_iff mem_inOrder).mp missed).1

end Statement

end ContractScript
