import ContractScript.Proofs.Statement.Position

/-!
How reading goes over a body, piece by piece: each piece is a statement that leads where it stands,
or a token that lenient reading passes over. It goes on until nothing is left, a number beyond the
integers is in the way, or strict reading finds no statement. Main statements: which of the three
comes about decides the answer for the whole body.
-/

namespace ContractScript.Statement

open Token

/-- What reading makes of a run of tokens. -/
inductive Piece where
  | statement (statement : Statement) (part : List Token)
  | passed (t : Token)

namespace Piece

def tokens : Piece → List Token
  | statement _ part => part
  | passed t => [t]

def statement? : Piece → Option Statement
  | statement found _ => some found
  | passed _ => none

/-- The statements among the pieces. -/
def statements (pieces : List Piece) : List Statement :=
  pieces.filterMap statement?

/-- The tokens of the pieces. -/
def body (pieces : List Piece) : List Token :=
  pieces.flatMap tokens

end Piece

/-- Reading goes over the pieces at the front of the tokens and comes to those at the end. -/
inductive Reads (mode : Mode) : List Token → List Piece → List Token → Prop
  | here (rest : List Token) : Reads mode rest [] rest
  | statement {found : Statement} {part behind rest : List Token} {pieces : List Piece}
      (leads : found.Leads mode part behind) (later : Reads mode behind pieces rest) :
      Reads mode (part ++ behind) (.statement found part :: pieces) rest
  | passed {t : Token} {behind rest : List Token} {pieces : List Piece} (lenient : mode = .lenient)
      (absent : Absent mode (t :: behind)) (inRange : ∀ big, ¬Overflows (t :: behind) big)
      (later : Reads mode behind pieces rest) :
      Reads mode (t :: behind) (.passed t :: pieces) rest

/-- Reading goes no further. -/
inductive Stops (mode : Mode) : List Token → Prop
  | finished : Stops mode []
  | overflow {tokens : List Token} {t : Token} (overflows : Overflows tokens t) : Stops mode tokens
  | unrecognized {t : Token} {rest : List Token} (strict : mode = .strict)
      (absent : Absent mode (t :: rest)) (inRange : ∀ big, ¬Overflows (t :: rest) big) :
      Stops mode (t :: rest)

section

open Shape

theorem mem_inOrder (shape : Shape) : shape ∈ inOrder := by
  cases shape <;> decide

variable {mode : Mode} {method : String} {total : Nat} {tokens rest : List Token} {t : Token}
  {pieces : List Piece}

theorem compileFrom_of_overflows (overflows : Overflows tokens t) :
    compileFrom inOrder mode method total tokens = .error (.integerRange t.text) := by
  have failed : attemptFirst mode tokens inOrder = .error (.integerRange t.text) :=
    (attemptFirst_eq_error_iff inOrder_mayPrecede mem_inOrder).mpr ⟨t, overflows, rfl⟩
  obtain ⟨shape, overflows⟩ := overflows
  obtain ⟨first, behind, rfl⟩ := List.exists_cons_of_ne_nil (List.ne_nil_of_mem overflows.mem)
  exact compileFrom_of_error failed

theorem compileFrom_strict_of_absent (absent : Absent .strict (t :: rest))
    (inRange : ∀ big, ¬Overflows (t :: rest) big) :
    compileFrom inOrder .strict method total (t :: rest) =
      .error (.unrecognized method (total - (t :: rest).length) t.text) :=
  compileFrom_strict_of_none ((attemptFirst_eq_none_iff mem_inOrder).mpr ⟨absent, inRange⟩)

namespace Reads

theorem body_append (reads : Reads mode tokens pieces rest) : Piece.body pieces ++ rest = tokens := by
  induction reads with
  | here rest => rfl
  | statement leads later ih => rw [← ih]; simp [Piece.body, Piece.tokens]
  | passed lenient absent inRange later ih => rw [← ih]; simp [Piece.body, Piece.tokens]

theorem place_eq (reads : Reads mode tokens pieces rest) :
    tokens.length - rest.length = (Piece.body pieces).length := by
  rw [← reads.body_append, List.length_append]
  omega

/-- The statements read so far stand in front of what reading the rest gives. -/
theorem compileFrom_eq (reads : Reads mode tokens pieces rest) :
    compileFrom inOrder mode method total tokens =
      (compileFrom inOrder mode method total rest).map (Piece.statements pieces ++ ·) := by
  induction reads with
  | here rest => cases compileFrom inOrder mode method total rest <;> rfl
  | @statement found part behind rest pieces leads later ih =>
    have first := leads.attemptFirst_eq inOrder_mayPrecede (mem_inOrder _)
    obtain ⟨t, tail, rfl⟩ := List.exists_cons_of_ne_nil leads.1.ne_nil
    rw [List.cons_append] at first ⊢
    rw [compileFrom_of_statement first, ih]
    cases compileFrom inOrder mode method total rest <;> rfl
  | @passed t behind rest pieces lenient absent inRange later ih =>
    subst lenient
    have missed := (attemptFirst_eq_none_iff mem_inOrder).mpr ⟨absent, inRange⟩
    rw [compileFrom_lenient_of_none missed, ih]
    rfl

/-- Strict reading goes over spellings alone. -/
theorem spells (reads : Reads .strict tokens pieces rest) :
    ∃ parts, List.Forall₂ Spells (Piece.statements pieces) parts ∧
      parts.flatten = Piece.body pieces := by
  induction reads with
  | here rest => exact ⟨[], .nil, rfl⟩
  | @statement found part behind rest pieces leads later ih =>
    obtain ⟨parts, spelled, same⟩ := ih
    refine ⟨part :: parts, .cons leads.1.spells_of_strict spelled, ?_⟩
    rw [List.flatten_cons, same]
    rfl
  | passed lenient => cases lenient

end Reads

theorem exists_reads (mode : Mode) (tokens : List Token) :
    ∃ pieces rest, Reads mode tokens pieces rest ∧ Stops mode rest := by
  -- On the length: each piece takes tokens away.
  induction length : tokens.length using Nat.strongRecOn generalizing tokens with
  | ind size ih =>
    cases tokens with
    | nil => exact ⟨[], [], .here [], .finished⟩
    | cons t behind =>
      cases answer : attemptFirst mode (t :: behind) inOrder with
      | error e =>
        obtain ⟨big, overflows, -⟩ :=
          (attemptFirst_eq_error_iff inOrder_mayPrecede mem_inOrder).mp answer
        exact ⟨[], _, .here _, .overflow overflows⟩
      | ok found? =>
        cases found? with
        | some pair =>
          obtain ⟨found, after⟩ := pair
          obtain ⟨part, same, leads⟩ :=
            (attemptFirst_eq_some_iff inOrder_mayPrecede mem_inOrder).mp answer
          have shorter : after.length < size := length ▸ attemptFirst_shorter answer
          obtain ⟨pieces, rest, reads, stops⟩ := ih after.length shorter after rfl
          exact ⟨.statement found part :: pieces, rest, same ▸ .statement leads reads, stops⟩
        | none =>
          obtain ⟨absent, inRange⟩ := (attemptFirst_eq_none_iff mem_inOrder).mp answer
          cases mode with
          | strict => exact ⟨[], _, .here _, .unrecognized rfl absent inRange⟩
          | lenient =>
            have shorter : behind.length < size := length ▸ Nat.lt_succ_self behind.length
            obtain ⟨pieces, rest, reads, stops⟩ := ih behind.length shorter behind rfl
            exact ⟨.passed t :: pieces, rest, .passed rfl absent inRange reads, stops⟩

/-- The answer for a body, by the place where reading stops. -/
theorem compile_outcome (mode : Mode) (method : String) (body : List Token) :
    ∃ pieces rest, Reads mode body pieces rest ∧
      ((rest = [] ∧ compile mode method body = .ok (Piece.statements pieces)) ∨
        (∃ t, Overflows rest t ∧ compile mode method body = .error (.integerRange t.text)) ∨
        (mode = .strict ∧ ∃ t behind, rest = t :: behind ∧ Absent mode rest ∧
          (∀ big, ¬Overflows rest big) ∧ compile mode method body =
            .error (.unrecognized method (Piece.body pieces).length t.text))) := by
  obtain ⟨pieces, rest, reads, stops⟩ := exists_reads mode body
  refine ⟨pieces, rest, reads, ?_⟩
  rw [compile, reads.compileFrom_eq]
  cases stops with
  | finished => exact .inl ⟨rfl, by simp [compileFrom, Except.map]⟩
  | @overflow _ t overflows =>
    refine .inr (.inl ⟨t, overflows, ?_⟩)
    rw [compileFrom_of_overflows overflows]
    rfl
  | @unrecognized t behind strict absent inRange =>
    subst strict
    refine .inr (.inr ⟨rfl, t, behind, rfl, absent, inRange, ?_⟩)
    rw [compileFrom_strict_of_absent absent inRange, reads.place_eq]
    rfl

/-- A body reads as statements where reading goes over all of it. -/
theorem compile_eq_ok_iff {body : List Token} {statements : List Statement} :
    compile mode method body = .ok statements ↔
      ∃ pieces, Reads mode body pieces [] ∧ Piece.statements pieces = statements := by
  constructor
  · intro read
    obtain ⟨pieces, rest, reads, ⟨rfl, same⟩ | ⟨t, -, same⟩ | ⟨-, t, behind, -, -, -, same⟩⟩ :=
      compile_outcome mode method body
    · rw [same] at read
      exact ⟨pieces, reads, Except.ok.inj read⟩
    · rw [same] at read
      cases read
    · rw [same] at read
      cases read
  · rintro ⟨pieces, reads, rfl⟩
    rw [compile, reads.compileFrom_eq, compileFrom]
    simp [Except.map]

/-- A number beyond the integers fails a body where reading comes to it. -/
theorem compile_eq_integerRange_iff {body : List Token} {digits : String} :
    compile mode method body = .error (.integerRange digits) ↔
      ∃ pieces rest t, Reads mode body pieces rest ∧ Overflows rest t ∧ t.text = digits := by
  constructor
  · intro failed
    obtain ⟨pieces, rest, reads, ⟨-, same⟩ | ⟨t, overflows, same⟩ | ⟨-, t, behind, -, -, -, same⟩⟩ :=
      compile_outcome mode method body
    · rw [same] at failed
      cases failed
    · rw [same] at failed
      cases failed
      exact ⟨pieces, rest, t, reads, overflows, rfl⟩
    · rw [same] at failed
      cases failed
  · rintro ⟨pieces, rest, t, reads, overflows, rfl⟩
    rw [compile, reads.compileFrom_eq, compileFrom_of_overflows overflows]
    rfl

/-- Strict reading reports the token at which no statement stands and no number is in the way, by
the count of the tokens in front of it. -/
theorem compile_eq_unrecognized_iff {body : List Token} {other token : String} {index : Nat} :
    compile mode method body = .error (.unrecognized other index token) ↔
      mode = .strict ∧ other = method ∧ ∃ pieces t rest, Reads mode body pieces (t :: rest) ∧
        Absent mode (t :: rest) ∧ (∀ big, ¬Overflows (t :: rest) big) ∧
        (Piece.body pieces).length = index ∧ t.text = token := by
  constructor
  · intro failed
    obtain ⟨pieces, rest, reads,
        ⟨-, same⟩ | ⟨t, -, same⟩ | ⟨strict, t, behind, rfl, absent, inRange, same⟩⟩ :=
      compile_outcome mode method body
    · rw [same] at failed
      cases failed
    · rw [same] at failed
      cases failed
    · rw [same] at failed
      cases failed
      exact ⟨strict, rfl, pieces, t, behind, reads, absent, inRange, rfl, rfl⟩
  · rintro ⟨rfl, rfl, pieces, t, rest, reads, absent, inRange, rfl, rfl⟩
    rw [compile, reads.compileFrom_eq, compileFrom_strict_of_absent absent inRange, reads.place_eq]
    rfl

end

end ContractScript.Statement
