import ContractScript.Program
import ContractScript.Statement.Shape

/-!
From the tokens of a method body to its statements. At each position the shapes are tried in order;
where none matches, strict reading stops with an error and lenient reading passes over one token.
-/

namespace ContractScript.Statement

/-- Reads the last tokens of a body of `total` tokens, trying the shapes in the given order. -/
def compileFrom (shapes : List Shape) (mode : Mode) (method : String) (total : Nat) :
    List Token → Except Error (List Statement)
  | [] => .ok []
  | t :: rest =>
    match found : Shape.attemptFirst mode (t :: rest) shapes with
    | .error e => .error e
    | .ok (some (statement, after)) =>
      have : after.length < (t :: rest).length := Shape.attemptFirst_shorter found
      match compileFrom shapes mode method total after with
      | .error e => .error e
      | .ok statements => .ok (statement :: statements)
    | .ok none =>
      match mode with
      | .strict => .error (.unrecognized method (total - (t :: rest).length) t.text)
      | .lenient => compileFrom shapes .lenient method total rest
termination_by tokens => tokens.length
decreasing_by
  · exact this
  · exact Nat.lt_succ_self rest.length

/-- The statements of a body; nothing runs unless the whole body reads. -/
def compile (mode : Mode) (method : String) (body : List Token) : Except Error (List Statement) :=
  compileFrom Shape.inOrder mode method body.length body

end ContractScript.Statement

namespace ContractScript.Method

def compile (m : Method) (mode : Mode) : Except Error (List Statement) :=
  Statement.compile mode m.name m.body

end ContractScript.Method
