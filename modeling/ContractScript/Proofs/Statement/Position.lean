import ContractScript.Proofs.Statement.Shape

/-!
What reading finds at a position of a body, in either mode, said of the tokens alone. Main
statements: the shapes in order find a statement where one stands, the longest one; they fail with
an error where a shape comes to a number beyond the integers in place of an operand; and they find
nothing where neither is the case.
-/

namespace ContractScript

open Token

namespace Statement

/-- The statement stands in front of `rest` and takes the tokens `part`: its spelling, or in lenient
reading its spelling without the `;`, where `rest` does not begin with one. -/
inductive Stands (mode : Mode) (statement : Statement) : List Token → List Token → Prop
  | closed {part : List Token} (spelled : statement.Spells part) (rest : List Token) :
      Stands mode statement part rest
  | unclosed {part rest : List Token} (lenient : mode = .lenient)
      (spelled : statement.Spells (part ++ [semicolon])) (ends : rest.head? ≠ some semicolon) :
      Stands mode statement part rest

/-- An assignment of a name, and the construction that goes on behind the name. -/
def Curtails (short long : Statement) : Prop :=
  ∃ target space cls, short = .assign target (.name space) ∧ long = .construct target space cls

/-- Of the statements that stand at the place, no one takes more tokens. -/
def Leads (mode : Mode) (statement : Statement) (part rest : List Token) : Prop :=
  statement.Stands mode part rest ∧ ∀ other cut behind, Stands mode other cut behind →
    cut ++ behind = part ++ rest → cut.length ≤ part.length

/-- Some shape is begun at the front of the tokens and comes to the number `t`, which is beyond the
integers. -/
def Overflows (tokens : List Token) (t : Token) : Prop :=
  ∃ shape : Shape, shape.Overflows tokens t

/-- No statement stands at the front of the tokens. -/
def Absent (mode : Mode) (tokens : List Token) : Prop :=
  ∀ (statement : Statement) (part rest : List Token), statement.Stands mode part rest →
    part ++ rest ≠ tokens

namespace Stands

open Shape

variable {mode : Mode} {statement other : Statement} {part rest cut behind : List Token}

theorem attempt_eq (stands : statement.Stands mode part rest) :
    attempt mode (part ++ rest) statement.shape = .ok (some (statement, rest)) := by
  cases stands with
  | closed spelled => exact spelled.attempt_eq mode rest
  | unclosed lenient spelled ends =>
    obtain ⟨head, split, read⟩ := spelled.exists_head
    obtain rfl := List.append_cancel_right split
    have stays : terminated .lenient rest = some rest := by
      cases rest with
      | nil => rfl
      | cons t rest =>
        have other : t.text ≠ ";" := fun same => ends (congrArg some (ofText_eq same))
        simp [terminated, other]
    rw [lenient, read, finish, stays, Option.map_some]

theorem of_attempt {tokens : List Token} {shape : Shape}
    (found : attempt mode tokens shape = .ok (some (statement, rest))) :
    statement.shape = shape ∧ ∃ part, part ++ rest = tokens ∧ statement.Stands mode part rest := by
  obtain ⟨head, after, spelled, sameShape, rfl, closed⟩ := exists_head_of_attempt found
  refine ⟨sameShape, ?_⟩
  have withEnd (tail : List Token) : head ++ [semicolon] ++ tail = head ++ semicolon :: tail :=
    (List.append_cons ..).symm
  cases mode with
  | strict =>
    obtain rfl := eq_of_terminated_strict closed
    exact ⟨head ++ [semicolon], withEnd rest, .closed spelled rest⟩
  | lenient =>
    cases after with
    | nil =>
      cases closed
      exact ⟨head, rfl, .unclosed rfl spelled (by simp)⟩
    | cons t tail =>
      simp only [terminated] at closed
      split at closed
      · next isEnd =>
        cases closed
        rw [ofText_eq isEnd]
        exact ⟨head ++ [semicolon], withEnd _, .closed spelled _⟩
      · next notEnd =>
        cases closed
        refine ⟨head, rfl, .unclosed rfl spelled ?_⟩
        intro isEnd
        obtain rfl : t = semicolon := by simpa using isEnd
        exact notEnd rfl

theorem spells_of_strict (stands : statement.Stands .strict part rest) : statement.Spells part := by
  cases stands with
  | closed spelled => exact spelled
  | unclosed lenient => cases lenient

theorem exists_spells (stands : statement.Stands mode part rest) :
    ∃ whole, statement.Spells whole ∧ part.length ≤ whole.length ∧
      whole.length ≤ part.length + 1 := by
  cases stands with
  | closed spelled => exact ⟨part, spelled, Nat.le_refl _, Nat.le_succ _⟩
  | unclosed lenient spelled ends => exact ⟨_, spelled, by simp, by simp⟩

theorem ne_nil (stands : statement.Stands mode part rest) : part ≠ [] := by
  obtain ⟨whole, spelled, -, atMost⟩ := stands.exists_spells
  have long : 5 ≤ whole.length := by cases spelled <;> simp
  rintro rfl
  simp only [List.length_nil] at atMost
  omega

theorem length_construct (stands : statement.Stands mode part rest)
    (constructs : statement.shape = .construct) : 8 ≤ part.length := by
  obtain ⟨whole, spelled, -, atMost⟩ := stands.exists_spells
  have nine : whole.length = 9 := by
    cases spelled with
    | construct => rfl
    | _ => cases constructs
  omega

theorem length_assign (stands : statement.Stands mode part rest)
    (assigns : statement.shape = .assign) : part.length ≤ 5 := by
  obtain ⟨whole, spelled, atLeast, -⟩ := stands.exists_spells
  have five : whole.length = 5 := by
    cases spelled with
    | assign => rfl
    | _ => cases assigns
  omega

theorem length_lt_of_curtails (short : statement.Stands mode part rest)
    (long : other.Stands mode cut behind) (curtails : statement.Curtails other) :
    part.length < cut.length := by
  obtain ⟨target, space, cls, rfl, rfl⟩ := curtails
  have short := short.length_assign rfl
  have long := long.length_construct rfl
  omega

/-- Where two statements stand at one place, they are the same, or one goes on where the other
stops. -/
theorem eq_or_curtails (first : statement.Stands mode part rest)
    (second : other.Stands mode cut behind) (same : part ++ rest = cut ++ behind) :
    (statement = other ∧ part = cut ∧ rest = behind) ∨ statement.Curtails other ∨
      other.Curtails statement := by
  have found := first.attempt_eq
  have again := second.attempt_eq
  rw [same] at found
  by_cases sameShape : statement.shape = other.shape
  · rw [sameShape, again] at found
    simp only [Except.ok.injEq, Option.some.injEq, Prod.mk.injEq] at found
    obtain ⟨rfl, rfl⟩ := found
    exact .inl ⟨rfl, List.append_cancel_right same, rfl⟩
  · have begun := begins_of_attempt (by rw [found]; simp)
    have begunAgain := begins_of_attempt (by rw [again]; simp)
    have both := (begun.exclusive begunAgain).resolve_left sameShape
    cases statement with
    | construct target space cls =>
      cases other with
      | construct => exact absurd rfl sameShape
      | assign => exact .inr (.inr ⟨_, _, _, assign_of_construct found again, rfl⟩)
      | _ => cases both.2
    | assign =>
      cases other with
      | construct => exact .inr (.inl ⟨_, _, _, assign_of_construct again found, rfl⟩)
      | assign => exact absurd rfl sameShape
      | _ => cases both.2
    | _ => cases both.1

end Stands

/-! ### What the shapes in order find -/

section

open Shape

variable {mode : Mode} {tokens : List Token} {shapes : List Shape} {statement : Statement}
  {part rest : List Token}

theorem Stands.leads (stands : statement.Stands mode part rest)
    (stops : ∀ longer cut behind, Stands mode longer cut behind → cut ++ behind = part ++ rest →
      ¬statement.Curtails longer) : statement.Leads mode part rest := by
  refine ⟨stands, fun other cut behind also same => ?_⟩
  rcases also.eq_or_curtails stands same with ⟨-, rfl, -⟩ | shorter | longer
  · exact Nat.le_refl _
  · exact Nat.le_of_lt (also.length_lt_of_curtails stands shorter)
  · exact absurd longer (stops other cut behind also same)

theorem Stands.leads_of_construct (stands : statement.Stands mode part rest)
    (constructs : statement.shape = .construct) : statement.Leads mode part rest := by
  refine stands.leads ?_
  rintro longer cut behind also same ⟨target, space, cls, rfl, -⟩
  cases constructs

theorem Leads.attemptFirst_eq (leads : statement.Leads mode part rest)
    (ordered : shapes.Pairwise MayPrecede) (among : statement.shape ∈ shapes) :
    attemptFirst mode (part ++ rest) shapes = .ok (some (statement, rest)) := by
  obtain ⟨stands, longest⟩ := leads
  have found := stands.attempt_eq
  have taken : attempt mode (part ++ rest) statement.shape ≠ .ok none := by simp [found]
  rw [attemptFirst_of_pairwise ordered among taken, found]
  intro earlier before
  refine Classical.byContradiction fun also => ?_
  have both := ((begins_of_attempt also).exclusive (begins_of_attempt taken)).resolve_left before.1
  obtain ⟨rfl, assigns⟩ := before.eq_of_isLet both
  cases built : attemptConstruct mode (part ++ rest) with
  | none => exact also (congrArg _ built)
  | some pair =>
    obtain ⟨other, behind⟩ := pair
    have constructs : attempt mode (part ++ rest) .construct = .ok (some (other, behind)) :=
      congrArg _ built
    obtain ⟨sameShape, cut, same, long⟩ := Stands.of_attempt constructs
    have atLeast := long.length_construct sameShape
    have atMost := stands.length_assign assigns
    have noLonger := longest other cut behind long same
    omega

/-- A statement is found where it stands and no longer one does. -/
theorem attemptFirst_eq_some_iff (ordered : shapes.Pairwise MayPrecede)
    (complete : ∀ shape, shape ∈ shapes) :
    attemptFirst mode tokens shapes = .ok (some (statement, rest)) ↔
      ∃ part, part ++ rest = tokens ∧ statement.Leads mode part rest := by
  constructor
  · intro found
    obtain ⟨shape, -, first⟩ := exists_attempt_eq_attemptFirst (by rw [found]; simp)
    obtain ⟨-, part, rfl, stands⟩ := Stands.of_attempt (first.trans found)
    refine ⟨part, rfl, stands.leads ?_⟩
    -- A construction that goes on behind an assignment would have been found in its place.
    rintro longer cut behind also same ⟨target, space, cls, rfl, rfl⟩
    have leads := also.leads_of_construct rfl
    rw [← same, leads.attemptFirst_eq ordered (complete _)] at found
    cases found
  · rintro ⟨part, rfl, leads⟩
    exact leads.attemptFirst_eq ordered (complete _)

/-- An error is met where a shape comes to a number beyond the integers. -/
theorem attemptFirst_eq_error_iff (ordered : shapes.Pairwise MayPrecede)
    (complete : ∀ shape, shape ∈ shapes) {e : Error} :
    attemptFirst mode tokens shapes = .error e ↔
      ∃ t, Overflows tokens t ∧ e = .integerRange t.text := by
  constructor
  · intro failed
    obtain ⟨shape, -, first⟩ := exists_attempt_eq_attemptFirst (by rw [failed]; simp)
    obtain ⟨t, overflows, same⟩ := attempt_eq_error_iff.mp (first.trans failed)
    exact ⟨t, ⟨shape, overflows⟩, same⟩
  · rintro ⟨t, ⟨shape, overflows⟩, rfl⟩
    have failed := overflows.attempt_eq mode
    have taken : attempt mode tokens shape ≠ .ok none := by simp [failed]
    rw [attemptFirst_of_pairwise ordered (complete shape) taken, failed]
    intro earlier before
    by_cases both : earlier.isLet = true ∧ shape.isLet = true
    · obtain ⟨rfl, rfl⟩ := before.eq_of_isLet both
      exact overflows.construct_fails mode
    · exact (begins_of_attempt taken).others_fail before.1.symm (both ∘ And.symm) mode

/-- Nothing is found where no statement stands and no shape comes to a number beyond the
integers. -/
theorem attemptFirst_eq_none_iff (complete : ∀ shape, shape ∈ shapes) :
    attemptFirst mode tokens shapes = .ok none ↔
      Absent mode tokens ∧ ∀ t, ¬Overflows tokens t := by
  constructor
  · intro missed
    have fails := fun shape => attemptFirst_eq_none_iff_forall.mp missed shape (complete shape)
    refine ⟨?_, ?_⟩
    · rintro statement part rest stands rfl
      have found := stands.attempt_eq
      rw [fails] at found
      cases found
    · rintro t ⟨shape, overflows⟩
      have failed := overflows.attempt_eq mode
      rw [fails] at failed
      cases failed
  · rintro ⟨absent, inRange⟩
    refine attemptFirst_eq_none_iff_forall.mpr fun shape _ => ?_
    cases answer : attempt mode tokens shape with
    | error e =>
      obtain ⟨t, overflows, -⟩ := attempt_eq_error_iff.mp answer
      exact absurd ⟨shape, overflows⟩ (inRange t)
    | ok found? =>
      cases found? with
      | none => rfl
      | some pair =>
        obtain ⟨-, part, same, stands⟩ := Stands.of_attempt answer
        exact absurd same (absent pair.1 part pair.2 stands)

end

end Statement

end ContractScript
