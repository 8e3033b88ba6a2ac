import ContractScript.Proofs.Statement.Segmentation

/-!
Strict reading of a body that is put together from two. Main statement: behind a front that strict
reading accepts, the back is read as it would be by itself, and the place of an error is counted
from the beginning of the whole. So the place of an unrecognized token is the length of the longest
front that strict reading accepts.
-/

namespace ContractScript

namespace Error

/-- The same error with its place behind so many more tokens. -/
def behind (count : Nat) : Error → Error
  | unexpected index wanted found => unexpected (count + index) wanted found
  | unrecognized method index token => unrecognized method (count + index) token
  | e => e

end Error

namespace Statement

variable {mode : Mode} {method : String} {total : Nat}

theorem compileFrom_add (count : Nat) {tokens : List Token} (fits : tokens.length ≤ total) :
    compileFrom Shape.inOrder mode method (count + total) tokens =
      (compileFrom Shape.inOrder mode method total tokens).mapError (Error.behind count) := by
  -- The length of the body decides nothing but the place that strict reading reports at its stop.
  obtain ⟨pieces, rest, reads, stops⟩ := exists_reads mode tokens
  rw [reads.compileFrom_eq, reads.compileFrom_eq]
  cases stops with
  | finished =>
    rw [compileFrom, compileFrom]
    rfl
  | overflow overflows =>
    rw [compileFrom_of_overflows overflows, compileFrom_of_overflows overflows]
    rfl
  | @unrecognized t behind strict absent inRange =>
    subst strict
    have within := congrArg List.length reads.body_append
    rw [List.length_append] at within
    have place : count + total - (t :: behind).length = count + (total - (t :: behind).length) := by
      omega
    rw [compileFrom_strict_of_absent absent inRange, compileFrom_strict_of_absent absent inRange,
      place]
    rfl

theorem compile_strict_append {front : List Token} {statements : List Statement}
    (accepted : compile .strict method front = .ok statements) (back : List Token) :
    compile .strict method (front ++ back) =
      ((compile .strict method back).mapError (Error.behind front.length)).map
        (statements ++ ·) := by
  obtain ⟨parts, spelled, rfl⟩ := spells_of_compile accepted
  rw [compile, compileFrom_append_of_spells spelled, List.length_append,
    compileFrom_add _ (Nat.le_refl back.length), compile]

theorem le_of_accepted {body : List Token} {other token : String} {index size : Nat}
    {statements : List Statement} (within : index < body.length)
    (failed : compile .strict method body = .error (.unrecognized other index token))
    (accepted : compile .strict method (body.take size) = .ok statements) : size ≤ index := by
  have whole := compile_strict_append accepted (body.drop size)
  rw [List.take_append_drop, failed] at whole
  cases later : compile .strict method (body.drop size) with
  | ok more =>
    rw [later] at whole
    cases whole
  | error e =>
    rw [later] at whole
    have placed : Error.unrecognized other index token =
        e.behind (body.take size).length := Except.error.inj whole
    cases e with
    | unrecognized method' index' token' =>
      simp only [Error.behind, Error.unrecognized.injEq, List.length_take] at placed
      omega
    | _ => cases placed

/-- An unrecognized token is the first behind the longest front that strict reading accepts. Behind a
front that strict reading accepts, a body is read as by itself. -/
theorem unrecognized_at_longest_prefix (method : String) :
    (∀ (body : List Token) (other : String) (index : Nat) (token : String),
      compile .strict method body = .error (.unrecognized other index token) →
      other = method ∧ (∃ within : index < body.length, body[index].text = token) ∧
      (∃ statements, compile .strict method (body.take index) = .ok statements) ∧
      ∀ size statements, compile .strict method (body.take size) = .ok statements →
        size ≤ index) ∧
    ∀ (front back : List Token) (statements : List Statement),
      compile .strict method front = .ok statements →
      (∀ more, compile .strict method back = .ok more →
        compile .strict method (front ++ back) = .ok (statements ++ more)) ∧
      ∀ e, compile .strict method back = .error e →
        compile .strict method (front ++ back) = .error (e.behind front.length) := by
  refine ⟨fun body other index token failed => ?_, fun front back statements accepted => ?_⟩
  · obtain ⟨-, rfl, pieces, t, rest, reads, -, -, rfl, rfl⟩ := compile_eq_unrecognized_iff.mp failed
    have split := reads.body_append
    have within : (Piece.body pieces).length < body.length := by
      rw [← split, List.length_append, List.length_cons]
      omega
    have front : body.take (Piece.body pieces).length = Piece.body pieces := by
      rw [← split, List.take_left']
      rfl
    obtain ⟨parts, spelled, flat⟩ := reads.spells
    refine ⟨rfl, ⟨within, ?_⟩, ⟨Piece.statements pieces, ?_⟩, fun size statements accepted =>
      le_of_accepted within failed accepted⟩
    · simp [← split]
    · rw [front, ← flat]
      exact compileFrom_of_spells spelled .strict other _
  · have whole := compile_strict_append accepted back
    refine ⟨fun more read => ?_, fun e failed => ?_⟩
    · rw [whole, read]
      rfl
    · rw [whole, failed]
      rfl

/-- A statement, a sum that is none, and a statement behind it. -/
def interrupted : List Token :=
  ["let", "y", "=", "x", ";", "x", "+", "1", ";", "print", "(", "y", ")", ";"].map Token.mk

theorem unrecognized_at_longest_prefix_interrupted :
    compile .strict "main" interrupted = .error (.unrecognized "main" 5 "x") ∧
    (∃ within : 5 < interrupted.length, interrupted[5].text = "x") ∧
    (∀ size statements, compile .strict "main" (interrupted.take size) = .ok statements →
      size ≤ 5) ∧
    compile .strict "main" (interrupted.take 5) = .ok [.assign "y" (.name "x")] ∧
    compile .strict "main" (interrupted.take 5 ++ interrupted.drop 9) =
      .ok [.assign "y" (.name "x"), .print (.name "y")] ∧
    compile .strict "main" (interrupted.take 5 ++ interrupted.drop 5) =
      .error ((Error.unrecognized "main" 0 "x").behind 5) := by
  have failed : compile .strict "main" interrupted = .error (.unrecognized "main" 5 "x") := by
    decide +kernel
  have accepted : compile .strict "main" (interrupted.take 5) = .ok [.assign "y" (.name "x")] := by
    decide +kernel
  obtain ⟨longest, appended⟩ := unrecognized_at_longest_prefix "main"
  obtain ⟨-, place, -, atMost⟩ := longest interrupted "main" 5 "x" failed
  exact ⟨failed, place, atMost, accepted,
    (appended _ (interrupted.drop 9) _ accepted).1 _ (by decide +kernel),
    (appended _ (interrupted.drop 5) _ accepted).2 _ (by decide +kernel)⟩

end Statement

end ContractScript
