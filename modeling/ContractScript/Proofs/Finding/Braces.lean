import ContractScript.Finding
import Mathlib.Algebra.Order.Ring.Int
import Mathlib.Data.List.Nodup
import Mathlib.Order.Bounds.Basic

/-!
The brace findings of a source text are its braces without a partner. Braces are matched by place:
which opening brace a closing one closes is a question about the whole text, and lines come in only
when a place is reported. The check goes line by line with a stack of line numbers; after every
prefix of the text the stack holds the lines of the opening braces that are still unmatched there.
-/

namespace ContractScript

namespace Text

/-- The place of the brace that a closing brace at `j` closes: the nearest opening brace before it
that no closing brace before it closes. -/
def partner? (cs : List Char) (j : Nat) : Option Nat :=
  if cs[j]? = some '\x7d' then
    ((List.range j).filter fun i =>
      cs[i]? = some '\x7b' ∧ ∀ k : Fin j, partner? cs k ≠ some i).getLast?
  else none
termination_by j

/-- The places of the opening braces among the first `n` characters that no closing brace among
them closes. -/
def openBefore (cs : List Char) (n : Nat) : List Nat :=
  (List.range n).filter fun i => cs[i]? = some '\x7b' ∧ ∀ k : Fin n, partner? cs k ≠ some i

/-- The places of the closing braces among the first `n` characters that close no brace. -/
def strayBefore (cs : List Char) (n : Nat) : List Nat :=
  (List.range n).filter fun j => cs[j]? = some '\x7d' ∧ partner? cs j = none

/-- The opening braces of a text that are never closed, in their order. -/
def unmatchedOpening (cs : List Char) : List Nat := openBefore cs cs.length

/-- The closing braces of a text that close nothing, in their order. -/
def unmatchedClosing (cs : List Char) : List Nat := strayBefore cs cs.length

/-- Whether a line break ends at place `k`: each line feed ends one, and so does a carriage return
that no line feed follows. -/
def breaksAt (cs : List Char) (k : Nat) : Prop :=
  cs[k]? = some '\n' ∨ cs[k]? = some '\r' ∧ cs[k + 1]? ≠ some '\n'

instance (cs : List Char) (k : Nat) : Decidable (breaksAt cs k) :=
  inferInstanceAs (Decidable (_ ∨ _))

/-- The number of the line on which place `i` stands. -/
def lineAt (cs : List Char) (i : Nat) : Nat :=
  1 + (List.range i).countP fun k => breaksAt cs k

/-- By how many the closing braces outnumber the opening ones. -/
def excess (cs : List Char) : Int := cs.count '\x7d' - cs.count '\x7b'

section Matching

variable {cs : List Char} {n : Nat}

theorem partner?_eq (cs : List Char) (j : Nat) :
    partner? cs j = if cs[j]? = some '\x7d' then (openBefore cs j).getLast? else none := by
  rw [partner?]
  rfl

theorem mem_openBefore {i : Nat} :
    i ∈ openBefore cs n ↔
      i < n ∧ cs[i]? = some '\x7b' ∧ ∀ k < n, partner? cs k ≠ some i := by
  simp [openBefore, Fin.forall_iff]

theorem partner?_lt {i j : Nat} (partner : partner? cs j = some i) : i < j := by
  rw [partner?_eq] at partner
  split at partner
  · exact (mem_openBefore.mp (List.mem_of_getLast? partner)).1
  · cases partner

theorem openBefore_nodup (cs : List Char) (n : Nat) : (openBefore cs n).Nodup :=
  List.nodup_range.filter _

/-- Reading one more character removes its partner from the open braces, and adds the character
itself if it is an opening brace. -/
theorem openBefore_succ (cs : List Char) (n : Nat) :
    openBefore cs (n + 1) =
      (openBefore cs n).filter (fun i => partner? cs n ≠ some i) ++
        if cs[n]? = some '\x7b' then [n] else [] := by
  have none_ahead : ∀ k : Fin (n + 1), partner? cs k ≠ some n := by
    intro k partner
    have := partner?_lt partner
    omega
  rw [openBefore, List.range_succ, List.filter_append, openBefore, List.filter_filter]
  congr 1
  · refine List.filter_congr fun i _ => ?_
    simp only [Fin.forall_iff, Nat.forall_lt_succ_right, ← Bool.decide_and, decide_eq_decide]
    tauto
  · by_cases opening : cs[n]? = some '\x7b'
    · simp [opening, none_ahead]
    · simp [opening]

theorem openBefore_opening (opening : cs[n]? = some '\x7b') :
    openBefore cs (n + 1) = openBefore cs n ++ [n] := by
  have alone : partner? cs n = none := by simp [partner?_eq, opening]
  simp [openBefore_succ, alone, opening]

theorem filter_ne_getLast? {places : List Nat} (nodup : places.Nodup) :
    places.filter (fun i => places.getLast? ≠ some i) = places.dropLast := by
  rcases List.eq_nil_or_concat' places with rfl | ⟨front, last, rfl⟩
  · rfl
  · have fresh : ∀ i ∈ front, last ≠ i := by
      intro i member same
      exact (List.nodup_append.mp nodup).2.2 i member last (by simp) same.symm
    simpa [List.filter_append, List.filter_eq_self] using fresh

theorem openBefore_closing (closing : cs[n]? = some '\x7d') :
    openBefore cs (n + 1) = (openBefore cs n).dropLast := by
  have partner : partner? cs n = (openBefore cs n).getLast? := by simp [partner?_eq, closing]
  rw [openBefore_succ, partner, filter_ne_getLast? (openBefore_nodup cs n)]
  simp [closing]

theorem openBefore_other (not_opening : cs[n]? ≠ some '\x7b') (not_closing : cs[n]? ≠ some '\x7d') :
    openBefore cs (n + 1) = openBefore cs n := by
  simp [openBefore_succ, partner?_eq, not_opening, not_closing]

theorem strayBefore_succ (cs : List Char) (n : Nat) :
    strayBefore cs (n + 1) =
      strayBefore cs n ++
        if cs[n]? = some '\x7d' ∧ openBefore cs n = [] then [n] else [] := by
  rw [strayBefore, List.range_succ, List.filter_append, strayBefore]
  by_cases closing : cs[n]? = some '\x7d'
  · simp [partner?_eq, closing, List.filter_singleton]
  · simp [closing]

theorem strayBefore_other (not_closing : cs[n]? ≠ some '\x7d') :
    strayBefore cs (n + 1) = strayBefore cs n := by
  simp [strayBefore_succ, not_closing]

theorem lineAt_succ (cs : List Char) (n : Nat) :
    lineAt cs (n + 1) = lineAt cs n + if breaksAt cs n then 1 else 0 := by
  simp [lineAt, List.range_succ, List.countP_append, List.countP_singleton, Nat.add_assoc]

end Matching

section Counting

variable {cs : List Char} {n : Nat}

theorem excess_append (front rest : List Char) :
    excess (front ++ rest) = excess front + excess rest := by
  simp only [excess, List.count_append]
  omega

/-- In every prefix the stray braces make up the excess, less what is still open. -/
theorem excess_take (cs : List Char) (n : Nat) :
    excess (cs.take n) = (strayBefore cs n).length - (openBefore cs n).length := by
  induction n with
  | zero => rfl
  | succ n ih =>
    rw [List.take_add_one, excess_append, ih]
    by_cases opening : cs[n]? = some '\x7b'
    · have less : excess cs[n]?.toList = -1 := by simp [opening, excess]
      have same : strayBefore cs (n + 1) = strayBefore cs n := strayBefore_other (by simp [opening])
      rw [less, same, openBefore_opening opening, List.length_append, List.length_singleton]
      omega
    by_cases closing : cs[n]? = some '\x7d'
    · have more : excess cs[n]?.toList = 1 := by simp [closing, excess]
      rw [more, openBefore_closing closing, List.length_dropLast]
      by_cases none_open : openBefore cs n = []
      · simp [strayBefore_succ, closing, none_open]
      · have same : strayBefore cs (n + 1) = strayBefore cs n := by
          simp [strayBefore_succ, none_open]
        have some_open := List.length_pos_iff.mpr none_open
        rw [same]
        omega
    · have none_met : excess cs[n]?.toList = 0 := by
        cases here : cs[n]? with
        | none => rfl
        | some c => simp_all [excess]
      rw [none_met, openBefore_other opening closing, strayBefore_other closing, Int.add_zero]

theorem strayBefore_length_mono (cs : List Char) {m n : Nat} (before : m ≤ n) :
    (strayBefore cs m).length ≤ (strayBefore cs n).length := by
  induction before with
  | refl => exact Nat.le_refl _
  | step _ ih => simp [strayBefore_succ]; omega

theorem exists_excess_eq (cs : List Char) (n : Nat) :
    ∃ m ≤ n, excess (cs.take m) = (strayBefore cs n).length := by
  -- The last stray brace comes when nothing is open, and the excess is taken right after it.
  induction n with
  | zero => exact ⟨0, Nat.le_refl _, rfl⟩
  | succ n ih =>
    by_cases stray : cs[n]? = some '\x7d' ∧ openBefore cs n = []
    · refine ⟨n + 1, Nat.le_refl _, ?_⟩
      rw [excess_take, openBefore_closing stray.1, stray.2]
      simp
    · obtain ⟨m, below, same⟩ := ih
      exact ⟨m, Nat.le_succ_of_le below, by simpa [strayBefore_succ, stray] using same⟩

theorem isGreatest_excess (cs : List Char) :
    IsGreatest (excess '' {front | front <+: cs}) (unmatchedClosing cs).length := by
  constructor
  · obtain ⟨m, -, same⟩ := exists_excess_eq cs cs.length
    exact ⟨cs.take m, List.take_prefix m cs, same⟩
  · rintro _ ⟨front, before, rfl⟩
    have mono := strayBefore_length_mono cs before.length_le
    rw [List.prefix_iff_eq_take.mp before, excess_take, unmatchedClosing]
    omega

end Counting

end Text

namespace Finding

open Text

def aboutBraces (f : Finding) : Bool :=
  f.kind = .extraClosingBrace ∨ f.kind = .unclosedBrace

def extraAt (cs : List Char) (j : Nat) : Finding := ⟨lineAt cs j, .extraClosingBrace⟩

def unclosedAt (cs : List Char) (i : Nat) : Finding := ⟨lineAt cs i, .unclosedBrace⟩

/-- What the check finds about braces on the lines from number `line` on. -/
def braceFindings (line : Nat) (opened : List Nat) (lines : List (List Char)) : List Finding :=
  (checkFrom line opened lines).filter aboutBraces

theorem drop_cons {c : Char} {cs rest : List Char} {n : Nat} (ahead : cs.drop n = c :: rest) :
    cs[n]? = some c ∧ cs.drop (n + 1) = rest ∧ n + 1 ≤ cs.length := by
  have inside : n < cs.length := by
    by_contra outside
    simp [List.drop_eq_nil_of_le (Nat.le_of_not_lt outside)] at ahead
  refine ⟨?_, ?_, inside⟩
  · rw [← List.head?_drop, ahead, List.head?_cons]
  · rw [← List.tail_drop, ahead, List.tail_cons]

section Steps

variable (line : Nat) (opened : List Nat) (lines : List (List Char))

theorem filter_declarations (text : List Char) :
    (declarations line text).filter aboutBraces = [] := by
  simp [declarations, aboutBraces, List.filter_append, apply_ite (List.filter _)]

theorem braceFindings_end :
    braceFindings line opened [[]] = opened.reverse.map fun line => ⟨line, .unclosedBrace⟩ := by
  simp [braceFindings, checkFrom, braces, filter_declarations, aboutBraces]

theorem braceFindings_blank :
    braceFindings line opened ([] :: lines) = braceFindings (line + 1) opened lines := by
  simp [braceFindings, checkFrom, braces, filter_declarations]

theorem braceFindings_opening :
    braceFindings line opened (extendFirst '\x7b' lines) =
      braceFindings line (line :: opened) lines := by
  cases lines <;>
    simp [braceFindings, extendFirst, checkFrom, braces, filter_declarations, aboutBraces]

theorem braceFindings_closing (top : Nat) :
    braceFindings line (top :: opened) (extendFirst '\x7d' lines) =
      braceFindings line opened lines := by
  cases lines <;>
    simp [braceFindings, extendFirst, checkFrom, braces, filter_declarations]

theorem braceFindings_stray :
    braceFindings line [] (extendFirst '\x7d' lines) =
      ⟨line, .extraClosingBrace⟩ :: braceFindings line [] lines := by
  cases lines <;>
    simp [braceFindings, extendFirst, checkFrom, braces, filter_declarations, aboutBraces]

theorem braceFindings_other {c : Char} (not_opening : c ≠ '\x7b') (not_closing : c ≠ '\x7d') :
    braceFindings line opened (extendFirst c lines) = braceFindings line opened lines := by
  cases lines <;>
    simp [braceFindings, extendFirst, checkFrom, braces, filter_declarations, not_opening,
      not_closing]

end Steps

/-- What the check reports from a place on, with the lines of the braces open at that place on its
stack, completes the stray braces before the place to those of the whole text. -/
theorem strays_append_findings (cs : List Char) (n : Nat) (rest : List Char)
    (ahead : cs.drop n = rest) (inside : n ≤ cs.length) :
    (strayBefore cs n).map (extraAt cs) ++
        braceFindings (lineAt cs n) ((openBefore cs n).reverse.map (lineAt cs)) (lines rest) =
      (unmatchedClosing cs).map (extraAt cs) ++ (unmatchedOpening cs).map (unclosedAt cs) := by
  fun_induction lines rest generalizing n with
  | case1 =>
    have finished : n = cs.length := Nat.le_antisymm inside (List.drop_eq_nil_iff.mp ahead)
    subst finished
    simp [braceFindings_end, unmatchedClosing, unmatchedOpening, unclosedAt]
  | case2 rest ih =>
    obtain ⟨here, ahead', -⟩ := drop_cons ahead
    obtain ⟨next, ahead'', inside'⟩ := drop_cons ahead'
    have same_open : openBefore cs (n + 2) = openBefore cs n := by
      rw [openBefore_other (by simp [next]) (by simp [next]), openBefore_other] <;> simp [here]
    have same_stray : strayBefore cs (n + 2) = strayBefore cs n := by
      rw [strayBefore_other (by simp [next]), strayBefore_other]; simp [here]
    -- The line goes up at the second of the two characters only.
    have next_line : lineAt cs (n + 2) = lineAt cs n + 1 := by
      simp [lineAt_succ, breaksAt, here, next]
    rw [← ih (n + 2) ahead'' inside', same_open, same_stray, next_line, braceFindings_blank]
  | case3 c rest alone ends ih =>
    obtain ⟨here, ahead', inside'⟩ := drop_cons ahead
    have no_brace : c ≠ '\x7b' ∧ c ≠ '\x7d' := by rcases ends with rfl | rfl <;> decide
    have ends_here : breaksAt cs n := by
      rcases ends with rfl | rfl
      · refine .inr ⟨here, fun next => ?_⟩
        rw [← List.head?_drop, ahead'] at next
        exact alone _ rfl (List.eq_cons_of_mem_head? next)
      · exact .inl here
    have next_line : lineAt cs (n + 1) = lineAt cs n + 1 := by
      rw [lineAt_succ, if_pos ends_here]
    rw [← ih (n + 1) ahead' inside', openBefore_other, strayBefore_other, next_line,
      braceFindings_blank] <;> simp [here, no_brace]
  | case4 c rest _ inner ih =>
    obtain ⟨here, ahead', inside'⟩ := drop_cons ahead
    have no_end : ¬ breaksAt cs n := by
      rintro (feed | ⟨lone, -⟩)
      · exact inner (.inr (Option.some.inj (here.symm.trans feed)))
      · exact inner (.inl (Option.some.inj (here.symm.trans lone)))
    have same_line : lineAt cs (n + 1) = lineAt cs n := by
      rw [lineAt_succ, if_neg no_end, Nat.add_zero]
    rw [← ih (n + 1) ahead' inside', same_line]
    by_cases opening : c = '\x7b'
    · subst opening
      simp [openBefore_opening here, strayBefore_other, here, braceFindings_opening]
    · by_cases closing : c = '\x7d'
      · subst closing
        -- The innermost open brace is the last of the open ones and the first on the stack.
        rw [openBefore_closing here, strayBefore_succ, ← List.tail_reverse, List.map_tail]
        cases opened : (openBefore cs n).reverse with
        | nil => simp [List.reverse_eq_nil_iff.mp opened, here, braceFindings_stray, extraAt]
        | cons top below =>
          have some_open : openBefore cs n ≠ [] := by
            rintro none_open
            simp [none_open] at opened
          simp [some_open, braceFindings_closing]
      · rw [openBefore_other, strayBefore_other, braceFindings_other] <;> simp [*]

theorem filter_aboutBraces_check (source : String) :
    (check source).filter aboutBraces =
      (unmatchedClosing source.toList).map (extraAt source.toList) ++
        (unmatchedOpening source.toList).map (unclosedAt source.toList) :=
  strays_append_findings source.toList 0 source.toList rfl (Nat.zero_le _)

theorem filter_kind_check {kind : Kind} (brace : kind = .extraClosingBrace ∨ kind = .unclosedBrace)
    (source : String) :
    (check source).filter (·.kind = kind) =
      ((unmatchedClosing source.toList).map (extraAt source.toList) ++
          (unmatchedOpening source.toList).map (unclosedAt source.toList)).filter
        (·.kind = kind) := by
  rw [← filter_aboutBraces_check, List.filter_filter]
  refine List.filter_congr fun f _ => ?_
  rcases brace with rfl | rfl <;> cases kind : f.kind <;> simp [aboutBraces, kind]

theorem filter_extraClosingBrace_check (source : String) :
    (check source).filter (·.kind = .extraClosingBrace) =
      (unmatchedClosing source.toList).map (extraAt source.toList) := by
  rw [filter_kind_check (.inl rfl)]
  simp [List.filter_append, List.filter_map, Function.comp_def, extraAt, unclosedAt]

theorem filter_unclosedBrace_check (source : String) :
    (check source).filter (·.kind = .unclosedBrace) =
      (unmatchedOpening source.toList).map (unclosedAt source.toList) := by
  rw [filter_kind_check (.inr rfl)]
  simp [List.filter_append, List.filter_map, Function.comp_def, extraAt, unclosedAt]

/-- The brace findings of a text are exactly its unmatched braces, in their order and on their
lines. So the extra closing braces are as many as the largest excess of closing braces in a prefix,
and the findings balance as the braces do. -/
theorem check_braces (source : String) :
    (check source).filter (·.kind = .extraClosingBrace) =
        (unmatchedClosing source.toList).map (fun j =>
          ⟨lineAt source.toList j, .extraClosingBrace⟩) ∧
      (check source).filter (·.kind = .unclosedBrace) =
        (unmatchedOpening source.toList).map (fun i => ⟨lineAt source.toList i, .unclosedBrace⟩) ∧
      IsGreatest (excess '' {front | front <+: source.toList})
        (count .extraClosingBrace (check source)) ∧
      (count .unclosedBrace (check source) : Int) - count .extraClosingBrace (check source) =
        source.toList.count '\x7b' - source.toList.count '\x7d' := by
  have extra := filter_extraClosingBrace_check source
  have unclosed := filter_unclosedBrace_check source
  have extra_count : count .extraClosingBrace (check source) =
      (unmatchedClosing source.toList).length := by
    rw [count, List.countP_eq_length_filter, extra, List.length_map]
  have unclosed_count : count .unclosedBrace (check source) =
      (unmatchedOpening source.toList).length := by
    rw [count, List.countP_eq_length_filter, unclosed, List.length_map]
  have balance := excess_take source.toList source.toList.length
  rw [List.take_length, excess] at balance
  refine ⟨extra, unclosed, ?_, ?_⟩
  · rw [extra_count]
    exact isGreatest_excess source.toList
  · rw [extra_count, unclosed_count, unmatchedOpening, unmatchedClosing]
    omega

example : check "\x7d\r\n\x7b\x7ba\x7d\r\x7d\n\n\x7b" =
    [⟨1, .extraClosingBrace⟩, ⟨5, .unclosedBrace⟩] := by decide +kernel

end Finding

end ContractScript
