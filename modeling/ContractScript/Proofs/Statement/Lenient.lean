import ContractScript.Proofs.Statement.Reading

/-!
Lenient reading. Main statements: lenient reading differs from strict reading only where strict
reading stops at an unrecognized token, and the statements it finds, written with their `;`, read
strictly as themselves. Where no number is beyond the integers, lenient reading cannot fail: it cuts
the body into statements and tokens passed over, in the one way in which no statement stands at a
token passed over.
-/

namespace ContractScript

namespace Error

/-- A token that starts no statement, as opposed to any other failure. -/
def isUnrecognized : Error → Bool
  | unrecognized .. => true
  | _ => false

end Error

namespace Statement

open Token

/-- Strict reading stops at an unrecognized token or agrees with lenient reading. -/
theorem compile_lenient (method : String) (body : List Token) :
    (∃ index token,
      compile .strict method body = .error (.unrecognized method index token)) ∨
    compile .lenient method body = compile .strict method body := by
  obtain ⟨pieces, rest, reads, answer⟩ := compile_outcome .strict method body
  obtain ⟨parts, spelled, flat⟩ := reads.spells
  have goesOn := compileFrom_append_of_spells spelled .lenient method body.length rest
  rw [flat, reads.body_append] at goesOn
  rcases answer with ⟨rfl, same⟩ | ⟨t, overflows, same⟩ | ⟨-, t, behind, -, -, -, same⟩
  · refine .inr ?_
    rw [same, compile, goesOn, compileFrom]
    simp [Except.map]
  · refine .inr ?_
    rw [same, compile, goesOn, compileFrom_of_overflows overflows]
    rfl
  · exact .inl ⟨_, _, same⟩

theorem Stands.spellable {mode : Mode} {statement : Statement} {part rest : List Token}
    (stands : statement.Stands mode part rest) : statement.Spellable := by
  obtain ⟨whole, spelled, -⟩ := stands.exists_spells
  exact spelled.spellable

theorem Reads.spellable {mode : Mode} {tokens rest : List Token} {pieces : List Piece}
    (reads : Reads mode tokens pieces rest) :
    ∀ statement ∈ Piece.statements pieces, statement.Spellable := by
  induction reads with
  | here rest => simp [Piece.statements]
  | statement leads later ih => exact List.forall_mem_cons.mpr ⟨leads.1.spellable, ih⟩
  | passed lenient absent inRange later ih => exact ih

/-- The statements at the front of a body are themselves a body. -/
theorem exists_compile_take {mode : Mode} {method : String} {body : List Token}
    {statements : List Statement} (read : compile mode method body = .ok statements) (k : Nat) :
    ∃ front, compile mode method front = .ok (statements.take k) := by
  obtain ⟨pieces, reads, rfl⟩ := compile_eq_ok_iff.mp read
  have spellable : ∀ statement ∈ (Piece.statements pieces).take k, statement.Spellable :=
    fun statement member => reads.spellable statement (List.mem_of_mem_take member)
  refine ⟨((Piece.statements pieces).take k).flatMap tokens, ?_⟩
  rw [List.flatMap_def]
  exact compileFrom_of_spells (forall₂_tokens spellable) mode method _

/-- Where strict reading succeeds or meets a number beyond the integers, lenient reading does the
same; they differ just where strict reading meets an unrecognized token. What lenient reading finds
in any body can be written with a `;` behind each statement, and strict reading finds it there. -/
theorem modes_differ_at_unrecognized (method : String) (body : List Token) :
    (∀ statements, compile .strict method body = .ok statements →
      compile .lenient method body = .ok statements) ∧
    (∀ digits, compile .strict method body = .error (.integerRange digits) →
      compile .lenient method body = .error (.integerRange digits)) ∧
    (compile .lenient method body ≠ compile .strict method body ↔
      ∃ index token, compile .strict method body = .error (.unrecognized method index token)) ∧
    ∀ statements, compile .lenient method body = .ok statements →
      (∀ statement ∈ statements, statement.Spellable) ∧
      compile .strict method (statements.flatMap tokens) = .ok statements ∧
      ∀ parts, List.Forall₂ Spells statements parts →
        compile .strict method parts.flatten = .ok statements := by
  have agree := compile_lenient method body
  refine ⟨fun statements read => ?_, fun digits failed => ?_, ⟨agree.resolve_right, ?_⟩,
    fun statements read => ?_⟩
  · rcases agree with ⟨index, token, stuck⟩ | same
    · rw [stuck] at read
      cases read
    · exact same.trans read
  · rcases agree with ⟨index, token, stuck⟩ | same
    · rw [stuck] at failed
      cases failed
    · exact same.trans failed
  · rintro ⟨index, token, stuck⟩ same
    cases (compile_eq_unrecognized_iff.mp (same.trans stuck)).1
  · obtain ⟨pieces, reads, rfl⟩ := compile_eq_ok_iff.mp read
    refine ⟨reads.spellable, ?_, fun parts spelled =>
      compileFrom_of_spells spelled .strict method _⟩
    rw [List.flatMap_def]
    exact compileFrom_of_spells (forall₂_tokens reads.spellable) .strict method _

/-- Two statements, the first without its `;`. -/
def unended : List Token :=
  ["let", "x", "=", "007", "print", "(", "x", ")", ";"].map Token.mk

/-- The beginning of a print of a number beyond the integers. -/
def overlong : List Token :=
  ["print", "(", "9223372036854775808"].map Token.mk

theorem modes_differ_at_unrecognized_unended :
    compile .strict "main" (unended.drop 4) = .ok [.print (.name "x")] ∧
    compile .lenient "main" (unended.drop 4) = .ok [.print (.name "x")] ∧
    compile .strict "main" overlong = .error (.integerRange "9223372036854775808") ∧
    compile .lenient "main" overlong = .error (.integerRange "9223372036854775808") ∧
    compile .strict "main" unended = .error (.unrecognized "main" 0 "let") ∧
    compile .lenient "main" unended ≠ compile .strict "main" unended ∧
    compile .lenient "main" unended = .ok [.assign "x" (.integer 7), .print (.name "x")] ∧
    compile .strict "main"
        ([Statement.assign "x" (.integer 7), .print (.name "x")].flatMap tokens) =
      .ok [.assign "x" (.integer 7), .print (.name "x")] := by
  have accepted : compile .strict "main" (unended.drop 4) = .ok [.print (.name "x")] := by
    decide +kernel
  have refused : compile .strict "main" overlong = .error (.integerRange "9223372036854775808") := by
    decide +kernel
  have stuck : compile .strict "main" unended = .error (.unrecognized "main" 0 "let") := by
    decide +kernel
  have read : compile .lenient "main" unended =
      .ok [.assign "x" (.integer 7), .print (.name "x")] := by decide +kernel
  obtain ⟨-, -, differ, written⟩ := modes_differ_at_unrecognized "main" unended
  exact ⟨accepted, (modes_differ_at_unrecognized "main" (unended.drop 4)).1 _ accepted, refused,
    (modes_differ_at_unrecognized "main" overlong).2.1 _ refused, stuck,
    differ.mpr ⟨0, "let", stuck⟩, read, (written _ read).2.1⟩

/-! ### Segmentation -/

/-- The pieces cut the tokens up: a statement stands where its piece begins, and none stands where a
token is passed over. -/
inductive Segments : List Token → List Piece → Prop
  | nil : Segments [] []
  | statement {found : Statement} {part rest : List Token} {pieces : List Piece}
      (stands : found.Stands .lenient part rest) (later : Segments rest pieces) :
      Segments (part ++ rest) (.statement found part :: pieces)
  | passed {t : Token} {rest : List Token} {pieces : List Piece}
      (absent : Absent .lenient (t :: rest)) (later : Segments rest pieces) :
      Segments (t :: rest) (.passed t :: pieces)

theorem Reads.segments {body rest : List Token} {pieces : List Piece}
    (reads : Reads .lenient body pieces rest) (whole : rest = []) : Segments body pieces := by
  induction reads with
  | here rest =>
    subst whole
    exact .nil
  | statement leads later ih => exact .statement leads.1 (ih whole)
  | passed lenient absent inRange later ih => exact .passed absent (ih whole)

/-- With the statements given, there is one way at most to cut a body up. -/
theorem Segments.unique {body : List Token} {pieces others : List Piece}
    (first : Segments body pieces) (second : Segments body others)
    (same : Piece.statements pieces = Piece.statements others) : pieces = others := by
  -- A place begins a statement in both or in neither, and the statement settles where it ends.
  induction first generalizing others with
  | nil =>
    generalize whole : [] = body at second
    cases second with
    | nil => rfl
    | statement stands later =>
      exact absurd (List.append_eq_nil_iff.mp whole.symm).1 stands.ne_nil
    | passed => cases whole
  | @statement found part rest pieces stands later ih =>
    generalize whole : part ++ rest = body at second
    cases second with
    | nil => exact absurd (List.append_eq_nil_iff.mp whole).1 stands.ne_nil
    | @statement other cut behind others again laterAgain =>
      obtain ⟨rfl, more⟩ : found = other ∧ Piece.statements pieces = Piece.statements others := by
        simpa [Piece.statements, Piece.statement?] using same
      have once := stands.attempt_eq
      rw [whole, again.attempt_eq] at once
      obtain rfl : behind = rest := by simpa using once
      obtain rfl := List.append_cancel_right whole
      rw [ih laterAgain more]
    | passed absent laterAgain => exact absurd whole (absent found part rest stands)
  | @passed t rest pieces absent later ih =>
    generalize whole : t :: rest = body at second
    cases second with
    | nil => cases whole
    | @statement other cut behind others again laterAgain =>
      exact absurd whole.symm (absent other cut behind again)
    | passed absentAgain laterAgain =>
      cases whole
      rw [ih laterAgain same]

/-- A piece of the statement begins at the place and takes the tokens `part`. -/
def BeginsAt (pieces : List Piece) (place : Nat) (statement : Statement) (part : List Token) :
    Prop :=
  ∃ before after, pieces = before ++ .statement statement part :: after ∧
    (Piece.body before).length = place

/-- A statement begins in front of the place and ends behind it. -/
def Straddles (pieces : List Piece) (place : Nat) : Prop :=
  ∃ start statement part, BeginsAt pieces start statement part ∧ start < place ∧
    place < start + part.length

theorem BeginsAt.cons {pieces : List Piece} {place : Nat} {statement : Statement}
    {part : List Token} (begins : BeginsAt pieces place statement part) (piece : Piece) :
    BeginsAt (piece :: pieces) (piece.tokens.length + place) statement part := by
  obtain ⟨before, after, rfl, rfl⟩ := begins
  exact ⟨piece :: before, after, rfl, by simp [Piece.body]⟩

theorem Straddles.cons {pieces : List Piece} {place : Nat} (straddles : Straddles pieces place)
    (piece : Piece) : Straddles (piece :: pieces) (piece.tokens.length + place) := by
  obtain ⟨start, statement, part, begins, above, below⟩ := straddles
  exact ⟨_, statement, part, begins.cons piece, by omega, by omega⟩

/-- What becomes of a statement that stands at a place which reading goes over: it is read there, or
the construction that goes on behind it is, or another statement was begun before and takes the
place. -/
def Accounts (pieces : List Piece) (place : Nat) (statement : Statement) (part : List Token) :
    Prop :=
  BeginsAt pieces place statement part ∨
    (∃ longer cut, statement.Curtails longer ∧ BeginsAt pieces place longer cut) ∨
    Straddles pieces place

theorem Accounts.cons {pieces : List Piece} {place : Nat} {statement : Statement}
    {part : List Token} (accounts : Accounts pieces place statement part) (piece : Piece) :
    Accounts (piece :: pieces) (piece.tokens.length + place) statement part := by
  rcases accounts with begins | ⟨longer, cut, curtails, begins⟩ | straddles
  · exact .inl (begins.cons piece)
  · exact .inr (.inl ⟨longer, cut, curtails, begins.cons piece⟩)
  · exact .inr (.inr (straddles.cons piece))

theorem Reads.accounts {mode : Mode} {body rest front part behind : List Token}
    {pieces : List Piece} {statement : Statement} (reads : Reads mode body pieces rest)
    (stands : statement.Stands mode part behind) (split : front ++ (part ++ behind) = body)
    (reached : front.length < (Piece.body pieces).length) :
    Accounts pieces front.length statement part := by
  -- On the reading: the place is that of the first piece, inside it, or one of those behind it.
  induction reads generalizing front with
  | here rest => cases reached
  | @statement found taken after rest pieces leads later ih =>
    have width : (Piece.body (.statement found taken :: pieces)).length =
        taken.length + (Piece.body pieces).length := by
      simp [Piece.body, Piece.tokens]
    by_cases within : front.length < taken.length
    · cases front with
      | nil =>
        rcases stands.eq_or_curtails leads.1 split with ⟨rfl, rfl, -⟩ | shorter | longer
        · exact .inl ⟨[], pieces, rfl, rfl⟩
        · exact .inr (.inl ⟨found, taken, shorter, [], pieces, rfl, rfl⟩)
        · have more := leads.1.length_lt_of_curtails stands longer
          exact absurd (leads.2 statement part behind stands split) (Nat.not_le_of_lt more)
      | cons t front =>
        exact .inr (.inr ⟨0, found, taken, ⟨[], pieces, rfl, rfl⟩, Nat.succ_pos _, by simpa⟩)
    · obtain ⟨further, rfl⟩ : taken <+: front :=
        List.prefix_of_prefix_length_le ⟨after, rfl⟩ ⟨part ++ behind, split⟩
          (Nat.le_of_not_lt within)
      have tail : further ++ (part ++ behind) = after := by simpa using split
      have place : further.length < (Piece.body pieces).length := by
        rw [width, List.length_append] at reached
        omega
      have accounts := (ih tail place).cons (.statement found taken)
      rwa [Piece.tokens, ← List.length_append] at accounts
  | @passed t after rest pieces lenient absent inRange later ih =>
    cases front with
    | nil => exact absurd split (absent statement part behind stands)
    | cons u front =>
      have place : front.length < (Piece.body pieces).length := by
        simpa [Piece.body, Piece.tokens] using reached
      have accounts := (ih (List.cons.inj split).2 place).cons (.passed t)
      rwa [Piece.tokens, List.length_singleton, Nat.add_comm] at accounts

/-- Where no number is beyond the integers, lenient reading succeeds. It cuts the body into
statements, each with the `;` that follows it if one does, and tokens at which no statement stands,
and this is the only way to cut these statements out of it. Every statement that stands anywhere in
the body is accounted for. -/
theorem compile_lenient_segments (method : String) {body : List Token}
    (inRange : ∀ t ∈ body, t.isInteger = true →
      Text.decimalValue t.text.toList ≤ Operand.maxInteger) :
    ∃ statements pieces, compile .lenient method body = .ok statements ∧
      Segments body pieces ∧ Piece.statements pieces = statements ∧ Piece.body pieces = body ∧
      (∀ others, Segments body others → Piece.statements others = statements → others = pieces) ∧
      ∀ (front part behind : List Token) (statement : Statement),
        statement.Stands .lenient part behind → front ++ (part ++ behind) = body →
        Accounts pieces front.length statement part := by
  obtain ⟨pieces, rest, reads, ⟨rfl, read⟩ | ⟨t, ⟨shape, overflows⟩, -⟩ | ⟨strict, -⟩⟩ :=
    compile_outcome .lenient method body
  · have whole : Piece.body pieces = body := by simpa using reads.body_append
    refine ⟨_, pieces, read, reads.segments rfl, rfl, whole, fun others cut same => ?_, ?_⟩
    · exact cut.unique (reads.segments rfl) same
    · intro front part behind statement stands split
      refine reads.accounts stands split ?_
      have some := List.length_pos_of_ne_nil stands.ne_nil
      rw [whole, ← split, List.length_append, List.length_append]
      omega
  · have member : t ∈ body := by
      rw [← reads.body_append]
      exact List.mem_append_right _ overflows.mem
    have oversized := overflows.isOversized
    exact absurd (inRange t member oversized.1) (Nat.not_le_of_lt oversized.2)
  · cases strict

/-- Two words before a construction without its `;`, and a call whose last tokens spell a print. -/
def nested : List Token :=
  ["let", "let", "w", "=", "grey", ".", "GRC", "(", ")", "a", ".", "print", "(", "007", ")", ";",
    ";", "5"].map Token.mk

theorem compile_lenient_segments_nested :
    (∀ t ∈ nested, t.isInteger = true →
      Text.decimalValue t.text.toList ≤ Operand.maxInteger) ∧
    compile .lenient "main" nested =
      .ok [.construct "w" "grey" "GRC", .call "a" "print" [.integer 7]] ∧
    ∃ pieces, Segments nested pieces ∧ Piece.body pieces = nested ∧
      Piece.statements pieces = [.construct "w" "grey" "GRC", .call "a" "print" [.integer 7]] ∧
      (∀ others, Segments nested others →
        Piece.statements others = [.construct "w" "grey" "GRC", .call "a" "print" [.integer 7]] →
        others = pieces) ∧
      Accounts pieces 11 (.print (.integer 7)) ((nested.drop 11).take 5) := by
  have inRange : ∀ t ∈ nested, t.isInteger = true →
      Text.decimalValue t.text.toList ≤ Operand.maxInteger := by decide +kernel
  have read : compile .lenient "main" nested =
      .ok [.construct "w" "grey" "GRC", .call "a" "print" [.integer 7]] := by decide +kernel
  have zeros : Operand.Spells (.integer 7) ⟨"007"⟩ :=
    Operand.Spells.integer (t := ⟨"007"⟩) (by decide) (by decide)
  obtain ⟨statements, pieces, same, cut, found, whole, unique, accounts⟩ :=
    compile_lenient_segments "main" inRange
  obtain rfl : [.construct "w" "grey" "GRC", .call "a" "print" [.integer 7]] = statements :=
    Except.ok.inj (read.symm.trans same)
  exact ⟨inRange, read, pieces, cut, whole, found, unique,
    accounts (nested.take 11) ((nested.drop 11).take 5) (nested.drop 16) _
      (.closed (.print zeros) _) rfl⟩

end Statement

/-- A body that strict reading accepts, or refuses for its integers, is read alike in both modes. -/
theorem Method.compile_lenient (method : Method) :
    (∃ index token,
      method.compile .strict = .error (.unrecognized method.name index token)) ∨
    method.compile .lenient = method.compile .strict :=
  Statement.compile_lenient method.name method.body

end ContractScript
