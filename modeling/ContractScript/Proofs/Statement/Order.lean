import ContractScript.Statement.Compile

/-!
The order in which shapes are tried. No two shapes begin alike, but for the two that start with
`let`, so a shape that does more than fail to match shuts the others out. What a list of shapes
finds, and from it what reading does at one position, is said for any order that does not try an
assignment before a construction.
-/

namespace ContractScript

namespace Token

theorem not_isSymbol_of_isIdentifier {t : Token} (named : t.isIdentifier = true) :
    t.isSymbol = false := by
  simp only [isIdentifier, Bool.and_eq_true, Bool.not_eq_true'] at named
  exact named.1.1

/-- The dot of a call is no identifier. -/
theorem text_ne_dot_of_isIdentifier {t : Token} (named : t.isIdentifier = true) :
    t.text ≠ "." := by
  intro dot
  have symbol : t.isSymbol = true := by
    have same : t = ⟨"."⟩ := by
      cases t
      exact congrArg Token.mk dot
    rw [same]
    decide +kernel
  rw [not_isSymbol_of_isIdentifier named] at symbol
  cases symbol

theorem ofToken_of_isIdentifier {t : Token} (named : t.isIdentifier = true) :
    Operand.ofToken t = .ok (.name t.text) := by
  simp only [isIdentifier, isLiteral, Bool.and_eq_true, Bool.not_eq_true'] at named
  obtain ⟨⟨_, noLiteral⟩, noInteger⟩ := named
  have none : t.contents? = none := by simpa using noLiteral
  simp [Operand.ofToken, none, noInteger]

end Token

namespace Shape

/-- What the first two tokens are wherever an attempt at the shape does more than fail to match. -/
def Begins : Shape → List Token → Prop
  | call, _ :: dot :: _ => dot.text = "."
  | print, word :: left :: _ => word.text = "print" ∧ left.text = "("
  | construct, word :: target :: _ | assign, word :: target :: _ =>
    word.text = "let" ∧ target.isIdentifier = true
  | _, _ => False

theorem begins_of_attempt {mode : Mode} {tokens : List Token} {shape : Shape}
    (taken : attempt mode tokens shape ≠ .ok none) : shape.Begins tokens := by
  cases shape with
  | construct =>
    simp only [attempt] at taken
    unfold attemptConstruct at taken
    split at taken
    · split at taken
      · next head => exact ⟨head.1, head.2.1⟩
      · exact absurd rfl taken
    · exact absurd rfl taken
  | call =>
    simp only [attempt] at taken
    unfold attemptCall at taken
    split at taken
    · split at taken
      · next head => exact head.2.1
      · exact absurd rfl taken
    · exact absurd rfl taken
  | print =>
    simp only [attempt] at taken
    unfold attemptPrint at taken
    split at taken
    · split at taken
      · next head => exact ⟨head.1, head.2.1⟩
      · exact absurd rfl taken
    · exact absurd rfl taken
  | assign =>
    simp only [attempt] at taken
    unfold attemptAssign at taken
    split at taken
    · split at taken
      · next head => exact ⟨head.1, head.2.1⟩
      · exact absurd rfl taken
    · exact absurd rfl taken

/-- The two shapes that bind a name. -/
def isLet : Shape → Bool
  | construct | assign => true
  | call | print => false

/-- No two shapes begin alike, except the two that start with `let`. -/
theorem Begins.exclusive {a b : Shape} {tokens : List Token} (first : a.Begins tokens)
    (second : b.Begins tokens) : a = b ∨ a.isLet = true ∧ b.isLet = true := by
  match tokens with
  | [] => cases a <;> exact first.elim
  | [t] => cases a <;> exact first.elim
  | word :: next :: rest =>
    have words : ("let" : String) ≠ "print" := by decide
    have symbols : ("." : String) ≠ "(" := by decide
    have named := @Token.text_ne_dot_of_isIdentifier next
    cases a <;> cases b <;> simp only [Begins] at first second <;> grind [isLet]

/-- A shape that does more than fail to match shuts out the shapes that begin otherwise. -/
theorem Begins.others_fail {a b : Shape} {tokens : List Token} (first : a.Begins tokens)
    (differ : a ≠ b) (apart : ¬(a.isLet = true ∧ b.isLet = true)) (mode : Mode) :
    attempt mode tokens b = .ok none := by
  refine Classical.byContradiction fun taken => ?_
  rcases first.exclusive (begins_of_attempt taken) with same | both
  · exact differ same
  · exact apart both

theorem attemptFirst_cons_of_fails {mode : Mode} {tokens : List Token} {shape : Shape}
    (fails : attempt mode tokens shape = .ok none) (shapes : List Shape) :
    attemptFirst mode tokens (shape :: shapes) = attemptFirst mode tokens shapes := by
  simp [attemptFirst, fails]

theorem attemptFirst_cons_of_taken {mode : Mode} {tokens : List Token} {shape : Shape}
    (taken : attempt mode tokens shape ≠ .ok none) (shapes : List Shape) :
    attemptFirst mode tokens (shape :: shapes) = attempt mode tokens shape := by
  unfold attemptFirst
  split
  · next fails => exact absurd fails taken
  · rfl

theorem attemptFirst_eq_none_iff_forall {mode : Mode} {tokens : List Token} {shapes : List Shape} :
    attemptFirst mode tokens shapes = .ok none ↔
      ∀ shape ∈ shapes, attempt mode tokens shape = .ok none := by
  induction shapes with
  | nil => simp [attemptFirst]
  | cons first shapes ih =>
    rw [List.forall_mem_cons]
    by_cases fails : attempt mode tokens first = .ok none
    · rw [attemptFirst_cons_of_fails fails, ih, and_iff_right fails]
    · rw [attemptFirst_cons_of_taken fails]
      exact ⟨fun missed => absurd missed fails, fun all => all.1⟩

/-- Which shape may be tried before which: any other one, but not an assignment before a
construction. -/
def MayPrecede (a b : Shape) : Prop :=
  a ≠ b ∧ ¬(a = assign ∧ b = construct)

instance (a b : Shape) : Decidable (MayPrecede a b) :=
  inferInstanceAs (Decidable (_ ∧ _))

theorem inOrder_mayPrecede : inOrder.Pairwise MayPrecede := by
  decide

theorem MayPrecede.eq_of_isLet {a b : Shape} (before : MayPrecede a b)
    (both : a.isLet = true ∧ b.isLet = true) : a = construct ∧ b = assign := by
  cases a <;> cases b <;> simp_all [isLet, MayPrecede]

/-- A shape that does more than fail to match is the one that answers, if all that the order allows
before it fail. -/
theorem attemptFirst_of_pairwise {mode : Mode} {tokens : List Token} {shapes : List Shape}
    {shape : Shape} {allowed : Shape → Shape → Prop} (ordered : shapes.Pairwise allowed)
    (among : shape ∈ shapes) (taken : attempt mode tokens shape ≠ .ok none)
    (before : ∀ earlier, allowed earlier shape → attempt mode tokens earlier = .ok none) :
    attemptFirst mode tokens shapes = attempt mode tokens shape := by
  induction shapes with
  | nil => cases among
  | cons first shapes ih =>
    obtain ⟨precedes, tail⟩ := List.pairwise_cons.mp ordered
    rcases List.mem_cons.mp among with rfl | later
    · exact attemptFirst_cons_of_taken taken shapes
    · rw [attemptFirst_cons_of_fails (before first (precedes shape later))]
      exact ih tail later

theorem exists_attempt_eq_attemptFirst {mode : Mode} {tokens : List Token} {shapes : List Shape}
    (taken : attemptFirst mode tokens shapes ≠ .ok none) :
    ∃ shape ∈ shapes, attempt mode tokens shape = attemptFirst mode tokens shapes := by
  induction shapes with
  | nil => exact absurd rfl taken
  | cons first shapes ih =>
    by_cases missed : attempt mode tokens first = .ok none
    · rw [attemptFirst_cons_of_fails missed] at taken ⊢
      obtain ⟨shape, member, same⟩ := ih taken
      exact ⟨shape, List.mem_cons_of_mem _ member, same⟩
    · exact ⟨first, List.mem_cons_self, (attemptFirst_cons_of_taken missed shapes).symm⟩

end Shape

namespace Statement

variable {shapes : List Shape} {mode : Mode} {method : String} {total : Nat} {t : Token}
  {rest : List Token}

theorem compileFrom_of_error {e : Error}
    (found : Shape.attemptFirst mode (t :: rest) shapes = .error e) :
    compileFrom shapes mode method total (t :: rest) = .error e := by
  rw [compileFrom]
  split <;> simp_all

theorem compileFrom_of_statement {statement : Statement} {after : List Token}
    (found : Shape.attemptFirst mode (t :: rest) shapes = .ok (some (statement, after))) :
    compileFrom shapes mode method total (t :: rest) =
      (compileFrom shapes mode method total after).map (statement :: ·) := by
  rw [compileFrom]
  split
  · simp_all
  · next first next_ same =>
    obtain ⟨rfl, rfl⟩ : statement = first ∧ after = next_ := by simp_all
    split <;> next tail => simp [tail, Except.map]
  · simp_all

theorem compileFrom_strict_of_none
    (found : Shape.attemptFirst .strict (t :: rest) shapes = .ok none) :
    compileFrom shapes .strict method total (t :: rest) =
      .error (.unrecognized method (total - (t :: rest).length) t.text) := by
  rw [compileFrom]
  split <;> simp_all

theorem compileFrom_lenient_of_none
    (found : Shape.attemptFirst .lenient (t :: rest) shapes = .ok none) :
    compileFrom shapes .lenient method total (t :: rest) =
      compileFrom shapes .lenient method total rest := by
  rw [compileFrom]
  split <;> simp_all

end Statement

end ContractScript
