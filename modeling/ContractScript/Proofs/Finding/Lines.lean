import ContractScript.Finding
import ContractScript.Proofs.Text.Lines

/-!
Findings and the lines they stand on. The check knows a text by its lines alone, and the lines
before a place matter to those after it only by their number and by the braces still open. So the
findings of a text do not depend on how its lines are broken, those of two texts with a line break
between them are those of the one and then those of the other, and they come in the order of the
lines.
-/

namespace ContractScript.Finding

open Text

/-! ### Line breaks -/

/-- The findings of a text stay the same when all its line breaks become line feeds: its lines are
what is left between the pairs of carriage return and line feed, cut again at each of the two. -/
theorem check_unified (source : String) :
    ['\r', '\n'].intercalate (splitPairs source.toList) = source.toList ∧
    (∀ piece ∈ splitPairs source.toList, ¬ ['\r', '\n'] <:+: piece) ∧
    lines source.toList = (splitPairs source.toList).flatMap (List.splitOnP isBreak) ∧
    check (String.ofList (unify source.toList)) = check source := by
  refine ⟨intercalate_splitPairs _, fun _ => not_pair_infix_of_mem, lines_eq_flatMap _, ?_⟩
  rw [check, String.toList_ofList, lines_unify, check]

/-- All line breaks in one text, and the two characters in both orders. -/
theorem check_unified_mixed :
    ['\x7d', '\r'] ∈ splitPairs "\x7d\r\r\n\x7d\n\r\x7d".toList ∧
    ¬ ['\r', '\n'] <:+: ['\x7d', '\r'] ∧
    check "\x7d\n\n\x7d\n\n\x7d" = check "\x7d\r\r\n\x7d\n\r\x7d" := by
  have member : ['\x7d', '\r'] ∈ splitPairs "\x7d\r\r\n\x7d\n\r\x7d".toList := by decide +kernel
  have feeds : String.ofList (unify "\x7d\r\r\n\x7d\n\r\x7d".toList) =
      "\x7d\n\n\x7d\n\n\x7d" := by decide +kernel
  obtain ⟨-, whole, -, same⟩ := check_unified "\x7d\r\r\n\x7d\n\r\x7d"
  exact ⟨member, whole _ member, feeds ▸ same⟩

/-! ### Composition -/

section Composition

variable (line : Nat) (opened : List Nat)

/-- What the lines from number `line` on report before the text ends, and the braces that are open
after them. -/
def passFrom (line : Nat) (opened : List Nat) : List (List Char) → List Finding × List Nat
  | [] => ([], opened)
  | text :: rest =>
    let after := braces line opened text
    let later := passFrom (line + 1) after.2 rest
    (after.1 ++ declarations line text ++ later.1, later.2)

theorem checkFrom_append (front back : List (List Char)) :
    checkFrom line opened (front ++ back) =
      (passFrom line opened front).1 ++
        checkFrom (line + front.length) (passFrom line opened front).2 back := by
  induction front generalizing line opened with
  | nil => rfl
  | cons text rest ih =>
    have number : line + 1 + rest.length = line + (text :: rest).length := by
      simp only [List.length_cons]
      omega
    simp only [List.cons_append, checkFrom, passFrom, ih, number, List.append_assoc]

theorem checkFrom_eq_pass (texts : List (List Char)) :
    checkFrom line opened texts =
      (passFrom line opened texts).1 ++
        (passFrom line opened texts).2.reverse.map fun line => ⟨line, .unclosedBrace⟩ := by
  have whole := checkFrom_append line opened texts []
  rwa [List.append_nil] at whole

/-- The finding as it is when `count` lines stand before the text. -/
def moved (count : Nat) (f : Finding) : Finding := { f with line := f.line + count }

theorem braces_moved (count : Nat) (text : List Char) :
    braces (line + count) (opened.map (· + count)) text =
      ((braces line opened text).1.map (moved count),
        (braces line opened text).2.map (· + count)) := by
  fun_induction braces line opened text with
  | case1 => rfl
  | case2 opened rest ih => simpa [braces] using ih
  | case3 rest _ after ih => simpa [braces, moved, Prod.ext_iff] using ih
  | case4 rest top opened _ ih => simpa [braces] using ih
  | case5 opened c rest opening closing ih => simpa [braces, opening, closing] using ih

theorem declarations_moved (count : Nat) (text : List Char) :
    declarations (line + count) text = (declarations line text).map (moved count) := by
  simp [declarations, moved, apply_ite (List.map _)]

theorem checkFrom_moved (count : Nat) (texts : List (List Char)) :
    checkFrom (line + count) (opened.map (· + count)) texts =
      (checkFrom line opened texts).map (moved count) := by
  induction texts generalizing line opened with
  | nil => simp [checkFrom, moved, Function.comp_def]
  | cons text rest ih =>
    have next : line + count + 1 = line + 1 + count := Nat.add_right_comm ..
    simp only [checkFrom, braces_moved, declarations_moved, next, ih, List.map_append]

/-- Over the lines of a text with no brace left open the check comes to a new text, but for the
numbers of its lines. -/
theorem checkFrom_append_of_closed {texts : List (List Char)}
    (closed : ∀ f ∈ checkFrom 1 [] texts, f.kind ≠ .unclosedBrace) (later : List (List Char)) :
    checkFrom 1 [] (texts ++ later) =
      checkFrom 1 [] texts ++ (checkFrom 1 [] later).map (moved texts.length) := by
  have pass := checkFrom_eq_pass 1 [] texts
  have none_open : (passFrom 1 [] texts).2 = [] := by
    refine List.eq_nil_iff_forall_not_mem.mpr fun line open_there => ?_
    refine closed ⟨line, .unclosedBrace⟩ ?_ rfl
    simp [pass, open_there]
  rw [none_open, List.reverse_nil, List.map_nil, List.append_nil] at pass
  rw [checkFrom_append, none_open, ← pass, ← checkFrom_moved, List.map_nil]

end Composition

/-! ### Order -/

/-- The place of a kind among the findings of one line. -/
def Kind.rank : Kind → Nat
  | extraClosingBrace => 0
  | missingContractBrace => 1
  | missingParamList => 2
  | missingImportTerminator => 3
  | unclosedBrace => 4

/-- The order of findings within the text: by lines, and on one line by kinds, of which only extra
closing braces may come more than once. -/
def Precedes (f g : Finding) : Prop :=
  f.line < g.line ∨ f.line = g.line ∧
    (f.kind.rank < g.kind.rank ∨ f.kind = .extraClosingBrace ∧ g.kind = .extraClosingBrace)

/-- The lines of braces that may be open on a line, the innermost one first. -/
structure Stacked (line : Nat) (opened : List Nat) : Prop where
  behind : ∀ above ∈ opened, above ≤ line
  sorted : opened.Pairwise (· ≥ ·)

section Order

variable {line : Nat} {opened : List Nat}

theorem eq_of_mem_braces {text : List Char} {f : Finding}
    (found : f ∈ (braces line opened text).1) : f = ⟨line, .extraClosingBrace⟩ := by
  fun_induction braces line opened text with
  | case1 => cases found
  | case2 opened rest ih => exact ih found
  | case3 rest _ after ih => exact (List.mem_cons.mp found).elim id ih
  | case4 rest top opened _ ih => exact ih found
  | case5 opened c rest opening closing ih => exact ih found

theorem Stacked.braces (stacked : Stacked line opened) (text : List Char) :
    Stacked line (braces line opened text).2 := by
  fun_induction Finding.braces line opened text with
  | case1 => exact stacked
  | case2 opened rest ih =>
    have pushed : Stacked line (line :: opened) :=
      ⟨List.forall_mem_cons.mpr ⟨Nat.le_refl _, stacked.behind⟩,
        List.pairwise_cons.mpr ⟨stacked.behind, stacked.sorted⟩⟩
    exact ih pushed
  | case3 rest _ after ih => exact ih stacked
  | case4 rest top opened _ ih =>
    have popped : Stacked line opened :=
      ⟨fun above member => stacked.behind above (List.mem_cons_of_mem _ member),
        stacked.sorted.of_cons⟩
    exact ih popped
  | case5 opened c rest opening closing ih => exact ih stacked

/-- The findings of one line are in order, and none of them is about a brace left open. -/
theorem onLine_ordered (line : Nat) (opened : List Nat) (text : List Char) :
    ((braces line opened text).1 ++ declarations line text).Pairwise Precedes ∧
      ∀ f ∈ (braces line opened text).1 ++ declarations line text,
        f.line = line ∧ f.kind ≠ .unclosedBrace := by
  have strays : (braces line opened text).1.Pairwise Precedes := by
    refine List.pairwise_of_forall_mem_list fun f found g found' => ?_
    rw [eq_of_mem_braces found, eq_of_mem_braces found']
    exact .inr ⟨rfl, .inr ⟨rfl, rfl⟩⟩
  have declared : (declarations line text).Pairwise Precedes ∧
      ∀ f ∈ declarations line text, f.line = line ∧ f.kind ≠ .unclosedBrace ∧ 0 < f.kind.rank := by
    unfold declarations
    cases lacksContractBrace text <;> cases lacksParamList text <;>
      cases lacksImportTerminator text <;> simp [Precedes, Kind.rank]
  refine ⟨List.pairwise_append.mpr ⟨strays, declared.1, ?_⟩, fun f found => ?_⟩
  · intro f found g found'
    obtain ⟨there, -, later⟩ := declared.2 g found'
    rw [eq_of_mem_braces found]
    exact .inr ⟨there.symm, .inl later⟩
  · rcases List.mem_append.mp found with stray | lacking
    · rw [eq_of_mem_braces stray]
      exact ⟨rfl, nofun⟩
    · exact ⟨(declared.2 f lacking).1, (declared.2 f lacking).2.1⟩

theorem passFrom_ordered (line : Nat) (opened : List Nat) (texts : List (List Char)) :
    (passFrom line opened texts).1.Pairwise Precedes ∧
      ∀ f ∈ (passFrom line opened texts).1, line ≤ f.line ∧ f.kind ≠ .unclosedBrace := by
  induction texts generalizing line opened with
  | nil => exact ⟨.nil, nofun⟩
  | cons text rest ih =>
    obtain ⟨here, at_line⟩ := onLine_ordered line opened text
    obtain ⟨later, beyond⟩ := ih (line + 1) (braces line opened text).2
    refine ⟨List.pairwise_append.mpr ⟨here, later, fun f found g found' => ?_⟩, fun f found => ?_⟩
    · exact .inl ((at_line f found).1 ▸ (beyond g found').1)
    · rcases List.mem_append.mp found with first | after
      · exact ⟨Nat.le_of_eq (at_line f first).1.symm, (at_line f first).2⟩
      · exact ⟨Nat.le_of_succ_le (beyond f after).1, (beyond f after).2⟩

theorem Stacked.passFrom (stacked : Stacked line opened) (texts : List (List Char)) :
    (passFrom line opened texts).2.Pairwise (· ≥ ·) := by
  induction texts generalizing line opened with
  | nil => exact stacked.sorted
  | cons text rest ih =>
    have after := stacked.braces text
    exact ih ⟨fun above member => Nat.le_succ_of_le (after.behind above member), after.sorted⟩

end Order

/-- The findings of a text whose braces are all closed, and of another one on the lines below it,
are the findings of both, one text after the other. All findings of a text come in the order of its
lines, and on one line in a fixed order of their kinds; only the braces left open, in the order of
their lines, are reported at the end. -/
theorem check_append_and_ordered :
    (∀ a b : String, (∀ f ∈ check a, f.kind ≠ .unclosedBrace) → a.toList.getLast? ≠ some '\r' →
      check (a ++ "\n" ++ b) = check a ++ (check b).map (moved (lines a.toList).length)) ∧
    ∀ source : String, ∃ front opened : List Finding, check source = front ++ opened ∧
      (∀ f ∈ front, f.kind ≠ .unclosedBrace) ∧ front.Pairwise Precedes ∧
      (∀ f ∈ opened, f.kind = .unclosedBrace) ∧ opened.Pairwise (·.line ≤ ·.line) := by
  constructor
  · intro a b closed open_end
    have texts : (a ++ "\n" ++ b).toList = a.toList ++ '\n' :: b.toList := by simp
    rw [check, texts, lines_append_feed open_end]
    exact checkFrom_append_of_closed closed _
  · intro source
    obtain ⟨ordered, kinds⟩ := passFrom_ordered 1 [] (lines source.toList)
    have stacked : Stacked 1 [] := ⟨nofun, .nil⟩
    refine ⟨_, _, checkFrom_eq_pass 1 [] (lines source.toList), fun f found => (kinds f found).2,
      ordered, ?_, ?_⟩
    · intro f found
      obtain ⟨_, _, rfl⟩ := List.mem_map.mp found
      rfl
    · exact List.pairwise_map.mpr (List.pairwise_reverse.mpr (stacked.passFrom _))

/-- The first text ends in a line feed, so that it has an empty third line. -/
theorem check_append_and_ordered_mixed :
    (∀ f ∈ check "\x7d\rcontract A\r\n", f.kind ≠ .unclosedBrace) ∧
    "\x7d\rcontract A\r\n".toList.getLast? ≠ some '\r' ∧
    check ("\x7d\rcontract A\r\n" ++ "\n" ++ "func \x7b") =
      [⟨1, .extraClosingBrace⟩, ⟨2, .missingContractBrace⟩, ⟨4, .missingParamList⟩,
        ⟨4, .unclosedBrace⟩] := by
  have closed : ∀ f ∈ check "\x7d\rcontract A\r\n", f.kind ≠ .unclosedBrace := by decide +kernel
  have open_end : "\x7d\rcontract A\r\n".toList.getLast? ≠ some '\r' := by decide +kernel
  refine ⟨closed, open_end, ?_⟩
  rw [check_append_and_ordered.1 _ _ closed open_end]
  decide +kernel

end ContractScript.Finding
