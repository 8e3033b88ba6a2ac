/-!
Lines of a text. A carriage return, a line feed, or the two in this order are one line break;
a text has one line more than it has breaks.
-/

namespace ContractScript.Text

/-- Puts a character in front of the first line. -/
def extendFirst (c : Char) : List (List Char) → List (List Char)
  | [] => [[c]]
  | line :: lines => (c :: line) :: lines

theorem extendFirst_eq_modifyHead {lines : List (List Char)} (some_line : lines ≠ []) (c : Char) :
    extendFirst c lines = lines.modifyHead (List.cons c) := by
  cases lines with
  | nil => exact absurd rfl some_line
  | cons line lines => rfl

def lines : List Char → List (List Char)
  | [] => [[]]
  | '\r' :: '\n' :: rest => [] :: lines rest
  | c :: rest => if c = '\r' ∨ c = '\n' then [] :: lines rest else extendFirst c (lines rest)

theorem lines_ne_nil (cs : List Char) : lines cs ≠ [] := by
  fun_induction lines cs with
  | case1 => simp
  | case2 => simp
  | case3 => simp
  | case4 c rest _ _ ih => simpa [extendFirst_eq_modifyHead ih] using ih

end ContractScript.Text
