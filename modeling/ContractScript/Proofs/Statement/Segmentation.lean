import ContractScript.Proofs.Statement.Reading

/-!
Strict reading against spellings. What strict reading takes at a position is a spelling of the
statement that it finds there, and no two spellings can start at one position. Main statement: a
body reads as a list of statements if and only if it is made of their spellings, one behind the
other, and it is made of spellings in one way at most.
-/

namespace ContractScript

namespace Statement

theorem spells_of_compile {method : String} {body : List Token} {statements : List Statement}
    (read : compile .strict method body = .ok statements) :
    ∃ parts, List.Forall₂ Spells statements parts ∧ parts.flatten = body := by
  obtain ⟨pieces, reads, rfl⟩ := compile_eq_ok_iff.mp read
  obtain ⟨parts, spelled, flat⟩ := reads.spells
  exact ⟨parts, spelled, flat.trans (by simpa using reads.body_append)⟩

/-- Two spellings at the front of the same tokens are the same: reading finds one statement there
and leaves one rest. -/
theorem Spells.unique {statement other : Statement} {part cut rest behind : List Token}
    (first : statement.Spells part) (second : other.Spells cut)
    (same : part ++ rest = cut ++ behind) : statement = other ∧ part = cut ∧ rest = behind := by
  have found := first.attemptFirst_eq Shape.inOrder_mayPrecede statement.shape_mem_inOrder .strict
    rest
  have again := second.attemptFirst_eq Shape.inOrder_mayPrecede other.shape_mem_inOrder .strict
    behind
  rw [same, again] at found
  simp only [Except.ok.injEq, Option.some.injEq, Prod.mk.injEq] at found
  obtain ⟨rfl, rfl⟩ := found
  exact ⟨rfl, List.append_cancel_right same, rfl⟩

theorem segmentation_unique {statements others : List Statement} {parts cuts : List (List Token)}
    (spelled : List.Forall₂ Spells statements parts) (again : List.Forall₂ Spells others cuts)
    (same : parts.flatten = cuts.flatten) : statements = others ∧ parts = cuts := by
  induction spelled generalizing others cuts with
  | nil =>
    cases again with
    | nil => exact ⟨rfl, rfl⟩
    | cons second later => exact absurd (List.append_eq_nil_iff.mp same.symm).1 second.ne_nil
  | cons first later ih =>
    cases again with
    | nil => exact absurd (List.append_eq_nil_iff.mp same).1 first.ne_nil
    | cons second more =>
      obtain ⟨rfl, rfl, rest⟩ := first.unique second same
      obtain ⟨rfl, rfl⟩ := ih more rest
      exact ⟨rfl, rfl⟩

/-- Strict reading accepts exactly the bodies that are cut into spellings. There is one way at most
to cut a body, and the tokens of statements read as these statements. -/
theorem compile_strict_eq_ok_iff (method : String) (body : List Token)
    (statements : List Statement) :
    (compile .strict method body = .ok statements ↔
      ∃ parts, List.Forall₂ Spells statements parts ∧ parts.flatten = body) ∧
    (∀ others parts cuts, List.Forall₂ Spells statements parts → parts.flatten = body →
      List.Forall₂ Spells others cuts → cuts.flatten = body → statements = others ∧ parts = cuts) ∧
    ((∀ statement ∈ statements, statement.Spellable) →
      compile .strict method (statements.flatMap tokens) = .ok statements) := by
  refine ⟨⟨spells_of_compile, ?_⟩, ?_, fun spellable => ?_⟩
  · rintro ⟨parts, spelled, rfl⟩
    exact compileFrom_of_spells spelled .strict method _
  · intro others parts cuts spelled whole again wholeAgain
    exact segmentation_unique spelled again (whole.trans wholeAgain.symm)
  · rw [List.flatMap_def]
    exact compileFrom_of_spells (forall₂_tokens spellable) .strict method _

/-- An assignment to the empty name, and a text that is a quote. -/
def sparse : List Statement := [.assign "" (.integer 7), .print (.text "\"")]

/-- Spellings of these statements, the integer with leading zeros. -/
def sparseParts : List (List Token) :=
  [[⟨"let"⟩, ⟨""⟩, ⟨"="⟩, ⟨"007"⟩, ⟨";"⟩], [⟨"print"⟩, ⟨"("⟩, ⟨"\"\"\""⟩, ⟨")"⟩, ⟨";"⟩]]

theorem compile_strict_eq_ok_iff_sparse :
    List.Forall₂ Spells sparse sparseParts ∧ (∀ statement ∈ sparse, statement.Spellable) ∧
    compile .strict "main" sparseParts.flatten = .ok sparse ∧
    (∀ others cuts, List.Forall₂ Spells others cuts → cuts.flatten = sparseParts.flatten →
      sparse = others ∧ sparseParts = cuts) ∧
    compile .strict "main" (sparse.flatMap tokens) = .ok sparse := by
  have spelled : List.Forall₂ Spells sparse sparseParts := by
    have zeros : Operand.Spells (.integer 7) ⟨"007"⟩ :=
      Operand.Spells.integer (t := ⟨"007"⟩) (by decide) (by decide)
    have quote : Operand.Spells (.text "\"") ⟨"\"\"\""⟩ := .text ['"']
    exact .cons (.assign (by decide) zeros) (.cons (.print quote) .nil)
  have spellable : ∀ statement ∈ sparse, statement.Spellable := by decide
  obtain ⟨accepts, unique, rendered⟩ :=
    compile_strict_eq_ok_iff "main" sparseParts.flatten sparse
  exact ⟨spelled, spellable, accepts.mpr ⟨sparseParts, spelled, rfl⟩,
    fun others cuts => unique others sparseParts cuts spelled rfl, rendered spellable⟩

end Statement

end ContractScript
