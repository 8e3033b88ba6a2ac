import ContractScript.Text.Lines

/-!
Lines of a text, and its line breaks taken one kind after the other. The pairs of carriage return
and line feed come first: where they are cut out, or replaced, only single characters break lines in
what is left. Main statements: cutting at the pairs and then at the single characters gives the
lines of the text, and the lines stay the same when every line break becomes a line feed.
-/

namespace ContractScript.Text

variable {cs ds : List Char}

/-- A character that breaks a line by itself. -/
def isBreak (c : Char) : Bool := c = '\r' ∨ c = '\n'

/-- The pieces of a text between its pairs of carriage return and line feed. -/
def splitPairs : List Char → List (List Char)
  | [] => [[]]
  | '\r' :: '\n' :: rest => [] :: splitPairs rest
  | c :: rest => extendFirst c (splitPairs rest)

/-- The text with a line feed in place of every pair. -/
def joinPairs (cs : List Char) : List Char := ['\n'].intercalate (splitPairs cs)

/-- The text with a line feed in place of every line break: of the pairs first, and then of the
carriage returns that are left. -/
def unify (cs : List Char) : List Char :=
  (joinPairs cs).map fun c => if c = '\r' then '\n' else c

/-! ### Pairs -/

theorem intercalate_extendFirst {lines : List (List Char)} (some_line : lines ≠ [])
    (sep : List Char) (c : Char) :
    sep.intercalate (extendFirst c lines) = c :: sep.intercalate lines := by
  cases lines with
  | nil => exact absurd rfl some_line
  | cons line lines => cases lines <;> simp [extendFirst]

theorem splitPairs_ne_nil (cs : List Char) : splitPairs cs ≠ [] := by
  fun_induction splitPairs cs with
  | case1 => simp
  | case2 => simp
  | case3 c rest _ ih =>
    rw [extendFirst_eq_modifyHead ih]
    simpa using ih

/-- No character is lost between the pieces. -/
theorem intercalate_splitPairs (cs : List Char) :
    ['\r', '\n'].intercalate (splitPairs cs) = cs := by
  fun_induction splitPairs cs with
  | case1 => rfl
  | case2 rest ih =>
    rw [List.intercalate_cons_of_ne_nil (splitPairs_ne_nil rest), ih]
    rfl
  | case3 c rest _ ih => rw [intercalate_extendFirst (splitPairs_ne_nil rest), ih]

/-- Pairs are cut out wherever they stand. -/
theorem not_pair_infix_of_mem {piece : List Char} (member : piece ∈ splitPairs cs) :
    ¬ ['\r', '\n'] <:+: piece := by
  fun_induction splitPairs cs generalizing piece with
  | case1 =>
    cases List.mem_singleton.mp member
    decide
  | case2 rest ih =>
    rcases List.mem_cons.mp member with rfl | later
    · decide
    · exact ih later
  | case3 c rest alone ih =>
    have whole := intercalate_splitPairs rest
    cases split : splitPairs rest with
    | nil => exact absurd split (splitPairs_ne_nil rest)
    | cons first pieces =>
      rw [split] at ih member whole
      rcases List.mem_cons.mp member with rfl | later
      · rw [List.infix_cons_iff]
        rintro (front | inside)
        · -- A pair at the front would have been cut out with its first character.
          obtain ⟨rfl, feed⟩ := List.cons_prefix_cons.mp front
          obtain ⟨after, rfl, -⟩ := List.cons_prefix_iff.mp feed
          cases pieces <;> exact alone _ rfl (by simpa using whole.symm)
        · exact ih List.mem_cons_self inside
      · exact ih (List.mem_cons_of_mem _ later)

theorem joinPairs_pair (rest : List Char) :
    joinPairs ('\r' :: '\n' :: rest) = '\n' :: joinPairs rest := by
  rw [joinPairs, splitPairs, List.intercalate_cons_of_ne_nil (splitPairs_ne_nil rest)]
  rfl

theorem joinPairs_cons {c : Char} {rest : List Char}
    (alone : ∀ after, c = '\r' → rest = '\n' :: after → False) :
    joinPairs (c :: rest) = c :: joinPairs rest := by
  rw [joinPairs, splitPairs, intercalate_extendFirst (splitPairs_ne_nil rest)]
  · rfl
  · exact alone

theorem joinPairs_of_not_mem (unreturned : '\r' ∉ cs) : joinPairs cs = cs := by
  induction cs with
  | nil => rfl
  | cons c rest ih =>
    rw [joinPairs_cons, ih fun later => unreturned (List.mem_cons_of_mem _ later)]
    rintro after rfl
    exact absurd List.mem_cons_self unreturned

theorem getLast?_ne_of_cons {c : Char} (open_end : (c :: cs).getLast? ≠ some '\r') :
    cs.getLast? ≠ some '\r' := by
  cases cs with
  | nil => simp
  | cons d cs => simpa using open_end

/-- A line feed is part of a pair only if a carriage return stands before it. -/
theorem joinPairs_append_feed (open_end : cs.getLast? ≠ some '\r') :
    joinPairs (cs ++ '\n' :: ds) = joinPairs cs ++ '\n' :: joinPairs ds := by
  fun_induction splitPairs cs with
  | case1 => exact joinPairs_cons fun _ => by simp
  | case2 rest ih =>
    have later := getLast?_ne_of_cons (getLast?_ne_of_cons open_end)
    rw [List.cons_append, List.cons_append, joinPairs_pair, joinPairs_pair, ih later]
    rfl
  | case3 c rest alone ih =>
    rw [joinPairs_cons alone, List.cons_append, List.cons_append, joinPairs_cons,
      ih (getLast?_ne_of_cons open_end)]
    rintro after rfl feed
    cases rest with
    | nil => exact open_end rfl
    | cons d rest =>
      cases feed
      exact alone rest rfl rfl

/-! ### Single characters -/

theorem splitOnP_intercalate {sep : Char} (breaks : isBreak sep) {pieces : List (List Char)}
    (some_piece : pieces ≠ []) :
    ([sep].intercalate pieces).splitOnP isBreak = pieces.flatMap (List.splitOnP isBreak) := by
  induction pieces with
  | nil => exact absurd rfl some_piece
  | cons first pieces ih =>
    cases pieces with
    | nil => simp
    | cons next pieces =>
      rw [List.intercalate_cons_cons, List.append_assoc, List.singleton_append,
        List.splitOnP_append_cons _ _ breaks, ih (by simp)]
      rfl

theorem lines_eq_splitOnP (cs : List Char) : lines cs = (joinPairs cs).splitOnP isBreak := by
  fun_induction lines cs with
  | case1 => rfl
  | case2 rest ih =>
    rw [joinPairs_pair, List.splitOnP_cons_eq_if_modifyHead, if_pos (by decide), ih]
  | case3 c rest alone ends ih =>
    have breaks : isBreak c = true := decide_eq_true ends
    rw [joinPairs_cons alone, List.splitOnP_cons_eq_if_modifyHead, if_pos breaks, ih]
  | case4 c rest alone inner ih =>
    have goes_on : ¬ isBreak c = true := by simpa [isBreak] using inner
    rw [joinPairs_cons alone, List.splitOnP_cons_eq_if_modifyHead, if_neg goes_on,
      extendFirst_eq_modifyHead (lines_ne_nil rest), ih]

/-- The lines are found in two stages as well, at the pairs and then at the single characters. -/
theorem lines_eq_flatMap (cs : List Char) :
    lines cs = (splitPairs cs).flatMap (List.splitOnP isBreak) := by
  rw [lines_eq_splitOnP, joinPairs, splitOnP_intercalate rfl (splitPairs_ne_nil cs)]

theorem lines_append_feed (open_end : cs.getLast? ≠ some '\r') :
    lines (cs ++ '\n' :: ds) = lines cs ++ lines ds := by
  rw [lines_eq_splitOnP, joinPairs_append_feed open_end, List.splitOnP_append_cons _ _ rfl,
    ← lines_eq_splitOnP, ← lines_eq_splitOnP]

/-! ### One kind of line break -/

theorem not_mem_unify (cs : List Char) : '\r' ∉ unify cs := by
  simp only [unify, List.mem_map, not_exists, not_and]
  intro c _
  split
  · decide
  · assumption

theorem splitOnP_unify (cs : List Char) :
    (unify cs).splitOnP isBreak = (joinPairs cs).splitOnP isBreak := by
  unfold unify
  induction joinPairs cs with
  | nil => rfl
  | cons c rest ih =>
    rw [List.map_cons, List.splitOnP_cons_eq_if_modifyHead, List.splitOnP_cons_eq_if_modifyHead, ih]
    by_cases returns : c = '\r'
    · subst returns
      rfl
    · rw [if_neg returns]

theorem lines_unify (cs : List Char) : lines (unify cs) = lines cs := by
  rw [lines_eq_splitOnP, joinPairs_of_not_mem (not_mem_unify cs), splitOnP_unify,
    ← lines_eq_splitOnP]

end ContractScript.Text
