import ContractScript.Proofs.Statement.Segmentation

/-!
Shapes tried in another order. Strict reading never has two shapes to choose from: where a
construction is complete, the assignment that it begins like is not. In lenient reading that
assignment is complete too, and only the order tells the two apart. Main statement: the order of the
shapes makes no difference to strict reading, and to lenient reading it makes none if and only if
constructions are tried before assignments.
-/

namespace ContractScript

namespace Shape

variable {mode : Mode} {tokens : List Token} {shapes others : List Shape}

/-- Where no two shapes do more than fail to match, the order of the shapes is of no account. -/
theorem attemptFirst_perm (order : shapes.Perm others)
    (single : ∀ a b, attempt mode tokens a ≠ .ok none → attempt mode tokens b ≠ .ok none → a = b) :
    attemptFirst mode tokens shapes = attemptFirst mode tokens others := by
  induction order with
  | nil => rfl
  | cons a order ih =>
    by_cases fails : attempt mode tokens a = .ok none
    · rw [attemptFirst_cons_of_fails fails, attemptFirst_cons_of_fails fails, ih]
    · rw [attemptFirst_cons_of_taken fails, attemptFirst_cons_of_taken fails]
  | swap a b rest =>
    by_cases failsA : attempt mode tokens a = .ok none
    · by_cases failsB : attempt mode tokens b = .ok none
      · rw [attemptFirst_cons_of_fails failsB, attemptFirst_cons_of_fails failsA,
          attemptFirst_cons_of_fails failsA, attemptFirst_cons_of_fails failsB]
      · rw [attemptFirst_cons_of_taken failsB, attemptFirst_cons_of_fails failsA,
          attemptFirst_cons_of_taken failsB]
    · by_cases failsB : attempt mode tokens b = .ok none
      · rw [attemptFirst_cons_of_fails failsB, attemptFirst_cons_of_taken failsA,
          attemptFirst_cons_of_taken failsA]
      · rw [single a b failsA failsB]
  | trans _ _ first second => exact first.trans second

/-- A construction that ends with its `;` leaves nothing to an assignment: one wants a dot where the
other wants the `;`, or a name where the other came to a number. -/
theorem assign_fails_of_construct (taken : attempt .strict tokens construct ≠ .ok none) :
    attempt .strict tokens assign = .ok none := by
  cases built : attempt .strict tokens construct with
  | error e => cases built
  | ok found? =>
    cases found? with
    | none => exact absurd built taken
    | some found =>
      obtain ⟨constructs, part, same, stands⟩ := Statement.Stands.of_attempt built
      cases assigned : attempt .strict tokens assign with
      | error e =>
        obtain ⟨t, overflows, -⟩ := attempt_eq_error_iff.mp assigned
        exact absurd (overflows.construct_fails .strict) taken
      | ok other? =>
        cases other? with
        | none => rfl
        | some other =>
          obtain ⟨assigns, cut, sameToo, standsToo⟩ := Statement.Stands.of_attempt assigned
          have spelled := stands.spells_of_strict
          have spelledToo := standsToo.spells_of_strict
          obtain ⟨one, -, -⟩ := spelled.unique spelledToo (same.trans sameToo.symm)
          rw [one, assigns] at constructs
          cases constructs

theorem strict_single {a b : Shape} (first : attempt .strict tokens a ≠ .ok none)
    (second : attempt .strict tokens b ≠ .ok none) : a = b := by
  rcases (begins_of_attempt first).exclusive (begins_of_attempt second) with same | ⟨letA, letB⟩
  · exact same
  · cases a with
    | construct =>
      cases b with
      | construct => rfl
      | assign => exact absurd (assign_fails_of_construct first) second
      | _ => cases letB
    | assign =>
      cases b with
      | construct => exact absurd (assign_fails_of_construct second) first
      | assign => rfl
      | _ => cases letB
    | _ => cases letA

/-- Any order that does not try an assignment before a construction finds what the usual one
finds. -/
theorem attemptFirst_eq_inOrder (ordered : shapes.Pairwise MayPrecede)
    (complete : ∀ shape, shape ∈ shapes) :
    attemptFirst mode tokens shapes = attemptFirst mode tokens inOrder := by
  cases found : attemptFirst mode tokens inOrder with
  | error e =>
    rw [Statement.attemptFirst_eq_error_iff ordered complete]
    exact (Statement.attemptFirst_eq_error_iff inOrder_mayPrecede Statement.mem_inOrder).mp found
  | ok found? =>
    cases found? with
    | none =>
      rw [Statement.attemptFirst_eq_none_iff complete]
      exact (Statement.attemptFirst_eq_none_iff Statement.mem_inOrder).mp found
    | some pair =>
      rw [Statement.attemptFirst_eq_some_iff ordered complete]
      exact (Statement.attemptFirst_eq_some_iff inOrder_mayPrecede Statement.mem_inOrder).mp found

theorem pairwise_of_idxOf_lt {a b : Shape} (once : shapes.Nodup)
    (before : shapes.idxOf a < shapes.idxOf b) :
    shapes.Pairwise fun x y => x ≠ y ∧ ¬(x = b ∧ y = a) := by
  rw [List.pairwise_iff_getElem]
  intro i j hi hj less
  refine ⟨List.pairwise_iff_getElem.mp once i j hi hj less, ?_⟩
  rintro ⟨rfl, rfl⟩
  rw [once.idxOf_getElem, once.idxOf_getElem] at before
  omega

end Shape

namespace Statement

open Shape

variable {shapes others : List Shape} {mode : Mode}

theorem compileFrom_congr
    (same : ∀ tokens, attemptFirst mode tokens shapes = attemptFirst mode tokens others)
    (method : String) (total : Nat) (tokens : List Token) :
    compileFrom shapes mode method total tokens = compileFrom others mode method total tokens := by
  induction measured : tokens.length using Nat.strongRecOn generalizing tokens with
  | ind size ih =>
    subst measured
    cases tokens with
    | nil => rw [compileFrom, compileFrom]
    | cons t rest =>
      have sameHere := same (t :: rest)
      cases found : attemptFirst mode (t :: rest) others with
      | error e =>
        rw [found] at sameHere
        rw [compileFrom_of_error found, compileFrom_of_error sameHere]
      | ok found? =>
        rw [found] at sameHere
        cases found? with
        | none =>
          cases mode with
          | strict =>
            rw [compileFrom_strict_of_none found, compileFrom_strict_of_none sameHere]
          | lenient =>
            rw [compileFrom_lenient_of_none found, compileFrom_lenient_of_none sameHere]
            exact ih _ (Nat.lt_succ_self rest.length) rest rfl
        | some pair =>
          rw [compileFrom_of_statement found, compileFrom_of_statement sameHere,
            ih _ (attemptFirst_shorter found) pair.2 rfl]

/-- A construction, of which the first four tokens make an assignment. -/
def constructing : List Token :=
  [⟨"let"⟩, ⟨"w"⟩, ⟨"="⟩, ⟨"ui"⟩, ⟨"."⟩, ⟨"GRC"⟩, ⟨"("⟩, ⟨")"⟩, ⟨";"⟩]

/-- With assignments tried first, lenient reading takes the name in front of the dot for the value
and passes over the rest. -/
theorem compileFrom_constructing_ne (complete : ∀ shape, shape ∈ shapes) (once : shapes.Nodup)
    (before : shapes.idxOf Shape.assign < shapes.idxOf Shape.construct) (method : String) :
    compileFrom shapes .lenient method constructing.length constructing ≠
      compile .lenient method constructing := by
  have assigns : attempt .lenient constructing .assign =
      .ok (some (.assign "w" (.name "ui"), constructing.drop 4)) := by decide +kernel
  have found : attemptFirst .lenient constructing shapes =
      .ok (some (.assign "w" (.name "ui"), constructing.drop 4)) := by
    rw [attemptFirst_of_pairwise (pairwise_of_idxOf_lt once before) (complete Shape.assign), assigns]
    · simp [assigns]
    · rintro earlier ⟨differs, notConstruct⟩
      cases earlier with
      | construct => exact absurd ⟨rfl, rfl⟩ notConstruct
      | assign => exact absurd rfl differs
      | call => decide +kernel
      | print => decide +kernel
  have usual : attemptFirst .lenient constructing inOrder =
      .ok (some (.construct "w" "ui" "GRC", [])) := by decide +kernel
  have reads : compileFrom shapes .lenient method constructing.length constructing =
      (compileFrom shapes .lenient method constructing.length (constructing.drop 4)).map
        (.assign "w" (.name "ui") :: ·) := compileFrom_of_statement found
  have readsUsual : compile .lenient method constructing = .ok [.construct "w" "ui" "GRC"] := by
    rw [compile, constructing, compileFrom_of_statement usual, compileFrom]
    rfl
  rw [reads, readsUsual]
  intro same
  cases later : compileFrom shapes .lenient method constructing.length (constructing.drop 4) with
  | error e =>
    rw [later] at same
    cases same
  | ok statements =>
    rw [later] at same
    cases same

/-- Strict reading gives the same answer in whatever order the shapes are tried, and lenient reading
does so for every body exactly when constructions are tried before assignments. -/
theorem compileFrom_perm {shapes : List Shape} (order : shapes.Perm inOrder) :
    (∀ method body, compileFrom shapes .strict method body.length body =
      compile .strict method body) ∧
    ((∀ method body, compileFrom shapes .lenient method body.length body =
      compile .lenient method body) ↔ shapes.idxOf Shape.construct < shapes.idxOf Shape.assign) := by
  have complete : ∀ shape, shape ∈ shapes := fun shape => order.mem_iff.mpr (mem_inOrder shape)
  have once : shapes.Nodup := order.nodup_iff.mpr (by decide)
  refine ⟨fun method body => ?_, fun same => ?_, fun before method body => ?_⟩
  · exact compileFrom_congr (fun tokens => attemptFirst_perm order fun _ _ => strict_single) ..
  · refine Classical.byContradiction fun notBefore => ?_
    have differ : shapes.idxOf Shape.construct ≠ shapes.idxOf Shape.assign := fun equal =>
      absurd (List.idxOf_inj (complete Shape.construct) |>.mp equal) (by decide)
    have before : shapes.idxOf Shape.assign < shapes.idxOf Shape.construct := by omega
    exact compileFrom_constructing_ne complete once before "main" (same "main" constructing)
  · exact compileFrom_congr
      (fun tokens => attemptFirst_eq_inOrder (pairwise_of_idxOf_lt once before) complete) ..

/-- Calls and prints at the ends, constructions still before assignments. -/
def rearranged : List Shape :=
  [.print, .construct, .assign, .call]

theorem compileFrom_perm_rearranged :
    rearranged.Perm inOrder ∧
    compileFrom rearranged .strict "main" constructing.length constructing =
      compile .strict "main" constructing ∧
    (rearranged.idxOf Shape.construct < rearranged.idxOf Shape.assign ∧
      compileFrom rearranged .lenient "main" constructing.length constructing =
        compile .lenient "main" constructing) ∧
    inOrder.reverse.Perm inOrder ∧
    ¬∀ method body, compileFrom inOrder.reverse .lenient method body.length body =
      compile .lenient method body := by
  have order : rearranged.Perm inOrder := by decide
  have before : rearranged.idxOf Shape.construct < rearranged.idxOf Shape.assign := by decide
  have back : inOrder.reverse.Perm inOrder := List.reverse_perm inOrder
  obtain ⟨strict, lenient⟩ := compileFrom_perm order
  refine ⟨order, strict "main" constructing, ⟨before, lenient.mpr before "main" constructing⟩,
    back, fun same => ?_⟩
  have after := (compileFrom_perm back).2.mp same
  exact absurd after (by decide)

end Statement

end ContractScript
