import ContractScript.Config
import ContractScript.Error
import ContractScript.Statement

/-!
The four shapes of statements, matched against the front of a token list:

    construct   let NAME = NAME . NAME ( ) ;
    call        NAME . NAME ( [operand {, operand}] ) ;
    print       print ( operand ) ;
    assign      let NAME = operand ;

An attempt has three ends: a statement with the tokens after it, no match, or an error, because an
operand is a number beyond the integers. Such an operand is an error where it is read, before the
rest of its shape is looked at.
-/

namespace ContractScript

namespace Operand

/-- The largest integer that digits can stand for, 2⁶³ − 1. -/
def maxInteger : Nat := 9223372036854775807

/-- The operand of a token that is no symbol. -/
def ofToken (t : Token) : Except Error Operand :=
  match t.contents? with
  | some contents => .ok (.text contents)
  | none =>
    if t.isInteger then
      let value := Text.decimalValue t.text.toList
      if value ≤ maxInteger then .ok (.integer (Int64.ofNat value))
      else .error (.integerRange t.text)
    else .ok (.name t.text)

/-- Operands separated by commas, up to and with the closing parenthesis. -/
def listFrom : List Token → Except Error (Option (List Operand × List Token))
  | [] => .ok none
  | t :: rest =>
    if t.isSymbol then .ok none
    else
      match ofToken t with
      | .error e => .error e
      | .ok operand =>
        match rest with
        | [] => .ok none
        | separator :: rest =>
          if separator.text = "," then
            match listFrom rest with
            | .ok (some (more, rest)) => .ok (some (operand :: more, rest))
            | other => other
          else if separator.text = ")" then .ok (some ([operand], rest))
          else .ok none

/-- What stands between the parentheses of a call, with the closing one. -/
def arguments : List Token → Except Error (Option (List Operand × List Token))
  | [] => .ok none
  | t :: rest => if t.text = ")" then .ok (some ([], rest)) else listFrom (t :: rest)

theorem listFrom_shorter {tokens rest : List Token} {operands : List Operand}
    (found : listFrom tokens = .ok (some (operands, rest))) : rest.length < tokens.length := by
  fun_induction listFrom tokens generalizing operands rest with
  | case1 => simp at found
  | case2 => simp at found
  | case3 => simp at found
  | case4 => simp at found
  | case5 t notSymbol operand ok separator tail comma more after inner ih =>
    simp only [Except.ok.injEq, Option.some.injEq, Prod.mk.injEq] at found
    have shorter := ih inner
    simp only [List.length_cons, ← found.2]
    omega
  | case6 t notSymbol operand ok separator tail comma inner ih =>
    exact absurd found (inner _ _)
  | case7 =>
    simp only [Except.ok.injEq, Option.some.injEq, Prod.mk.injEq] at found
    simp only [List.length_cons, ← found.2]
    omega
  | case8 => simp at found

theorem arguments_shorter {tokens rest : List Token} {operands : List Operand}
    (found : arguments tokens = .ok (some (operands, rest))) : rest.length < tokens.length := by
  unfold arguments at found
  split at found
  · simp at found
  · split at found
    · simp only [Except.ok.injEq, Option.some.injEq, Prod.mk.injEq] at found
      simp [← found.2]
    · exact listFrom_shorter found

end Operand

inductive Shape where
  | construct
  | call
  | print
  | assign
deriving DecidableEq

namespace Shape

/-- The end of a statement: `;`, which lenient reading takes where it stands but can do without. -/
def terminated : Mode → List Token → Option (List Token)
  | .strict, t :: rest => if t.text = ";" then some rest else none
  | .strict, [] => none
  | .lenient, t :: rest => if t.text = ";" then some rest else some (t :: rest)
  | .lenient, [] => some []

/-- A statement whose tokens are complete but for the end. -/
def finish (mode : Mode) (statement : Statement) (rest : List Token) :
    Option (Statement × List Token) :=
  (terminated mode rest).map fun rest => (statement, rest)

def attemptConstruct (mode : Mode) : List Token → Option (Statement × List Token)
  | word :: target :: equals :: space :: dot :: cls :: left :: right :: rest =>
    if word.text = "let" ∧ target.isIdentifier ∧ equals.text = "=" ∧ space.isIdentifier ∧
        dot.text = "." ∧ cls.isIdentifier ∧ left.text = "(" ∧ right.text = ")" then
      finish mode (.construct target.text space.text cls.text) rest
    else none
  | _ => none

def attemptCall (mode : Mode) : List Token → Except Error (Option (Statement × List Token))
  | object :: dot :: method :: left :: rest =>
    if object.isIdentifier ∧ dot.text = "." ∧ method.isIdentifier ∧ left.text = "(" then
      match Operand.arguments rest with
      | .error e => .error e
      | .ok none => .ok none
      | .ok (some (args, rest)) => .ok (finish mode (.call object.text method.text args) rest)
    else .ok none
  | _ => .ok none

def attemptPrint (mode : Mode) : List Token → Except Error (Option (Statement × List Token))
  | word :: left :: value :: rest =>
    if word.text = "print" ∧ left.text = "(" ∧ value.isSymbol = false then
      match Operand.ofToken value with
      | .error e => .error e
      | .ok operand =>
        match rest with
        | [] => .ok none
        | right :: rest =>
          if right.text = ")" then .ok (finish mode (.print operand) rest) else .ok none
    else .ok none
  | _ => .ok none

def attemptAssign (mode : Mode) : List Token → Except Error (Option (Statement × List Token))
  | word :: target :: equals :: value :: rest =>
    if word.text = "let" ∧ target.isIdentifier ∧ equals.text = "=" ∧ value.isSymbol = false then
      match Operand.ofToken value with
      | .error e => .error e
      | .ok operand => .ok (finish mode (.assign target.text operand) rest)
    else .ok none
  | _ => .ok none

/-- Matches one shape against the front of the tokens. -/
def attempt (mode : Mode) (tokens : List Token) :
    Shape → Except Error (Option (Statement × List Token))
  | construct => .ok (attemptConstruct mode tokens)
  | call => attemptCall mode tokens
  | print => attemptPrint mode tokens
  | assign => attemptAssign mode tokens

theorem terminated_length {mode : Mode} {tokens rest : List Token}
    (ended : terminated mode tokens = some rest) : rest.length ≤ tokens.length := by
  unfold terminated at ended
  split at ended
  · split at ended
    · simp [← Option.some.inj ended]
    · simp at ended
  · simp at ended
  · split at ended <;> simp [← Option.some.inj ended]
  · simp [← Option.some.inj ended]

theorem finish_length {mode : Mode} {statement found : Statement} {tokens rest : List Token}
    (ended : finish mode statement tokens = some (found, rest)) :
    rest.length ≤ tokens.length := by
  simp only [finish, Option.map_eq_some_iff, Prod.mk.injEq] at ended
  obtain ⟨after, eq, _, rfl⟩ := ended
  exact terminated_length eq

/-- A statement takes at least one token. -/
theorem attempt_shorter {mode : Mode} {tokens rest : List Token} {shape : Shape}
    {statement : Statement} (found : attempt mode tokens shape = .ok (some (statement, rest))) :
    rest.length < tokens.length := by
  cases shape with
  | construct =>
    simp only [attempt, Except.ok.injEq] at found
    unfold attemptConstruct at found
    split at found
    · split at found
      · have := finish_length found
        simp only [List.length_cons]
        omega
      · simp at found
    · simp at found
  | call =>
    simp only [attempt] at found
    unfold attemptCall at found
    split at found
    · split at found
      · split at found
        · simp at found
        · simp at found
        · next args =>
          have := finish_length (Except.ok.inj found)
          have := Operand.arguments_shorter args
          simp only [List.length_cons]
          omega
      · simp at found
    · simp at found
  | print =>
    simp only [attempt] at found
    unfold attemptPrint at found
    split at found
    · split at found
      · split at found
        · simp at found
        · split at found
          · simp at found
          · split at found
            · have := finish_length (Except.ok.inj found)
              simp only [List.length_cons]
              omega
            · simp at found
      · simp at found
    · simp at found
  | assign =>
    simp only [attempt] at found
    unfold attemptAssign at found
    split at found
    · split at found
      · split at found
        · simp at found
        · have := finish_length (Except.ok.inj found)
          simp only [List.length_cons]
          omega
      · simp at found
    · simp at found

/-- The first shape of a list that matches; an error on the way there is the answer. -/
def attemptFirst (mode : Mode) (tokens : List Token) :
    List Shape → Except Error (Option (Statement × List Token))
  | [] => .ok none
  | shape :: shapes =>
    match attempt mode tokens shape with
    | .ok none => attemptFirst mode tokens shapes
    | result => result

theorem attemptFirst_shorter {mode : Mode} {tokens rest : List Token} {shapes : List Shape}
    {statement : Statement} (found : attemptFirst mode tokens shapes = .ok (some (statement, rest))) :
    rest.length < tokens.length := by
  induction shapes with
  | nil => simp [attemptFirst] at found
  | cons shape shapes ih =>
    unfold attemptFirst at found
    split at found
    · exact ih found
    · exact attempt_shorter found

/-- The order in which shapes are tried: `let x = a . B ( ) ;` constructs, also where the lenient
reading could take it for an assignment followed by other tokens. -/
def inOrder : List Shape := [construct, call, print, assign]

end Shape

end ContractScript
