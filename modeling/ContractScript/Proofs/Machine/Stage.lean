import ContractScript.Proofs.Machine.Depth
import ContractScript.Proofs.Machine.Passage
import Mathlib.Logic.Relation

/-!
A call as a sequence of stages. The methods that are running stand on a stack of frames, and each
stage is reached from the one before by one step of the innermost frame, with nothing nested in it
and no count of frames other than the machine's own. Main statement: from the stage that calls a
method the steps lead to the end that the call has.
-/

namespace ContractScript

open ContractScript.Action

variable {T : Toolkit} {α : Type}

namespace Machine

/-- The machine back in the method that called the one that has ended. -/
def shallower (m : Machine T) : Machine T := { m with depth := m.depth - 1 }

/-- The method of a contract that a call comes to, if it comes to one. -/
def bodyOf (m : Machine T) (receiver : ObjectId) (method : String) : Option Method :=
  (m.heap.lookup receiver).contract?.bind fun contract => contract.methods.get? method

/-- Execution for the actions that execute no method. -/
def nothing : Execute T := fun _ _ _ => pure ()

theorem dispatch_of_body (executes : Execute T) {m : Machine T} {receiver : ObjectId}
    {method : String} {body : Method} (found : m.bodyOf receiver method = some body)
    (args : List (Value T.Class)) :
    dispatch executes receiver method args m =
      (executes receiver body args >>= fun _ => pure .null) m := by
  simp only [dispatch, bind_apply, object_apply]
  unfold bodyOf at found
  cases held : m.heap.lookup receiver with
  | hosted handle written => simp [held, Object.contract?] at found
  | interpreted contract fields =>
    cases contract with
    | none => simp [held, Object.contract?] at found
    | some contract =>
      replace found : contract.methods.get? method = some body := by
        simpa [held, Object.contract?] using found
      simp only [found, bind_apply]

/-- A call that comes to no method of a contract executes nothing. -/
theorem dispatch_of_noBody (first second : Execute T) {m : Machine T} {receiver : ObjectId}
    {method : String} (missing : m.bodyOf receiver method = none) (args : List (Value T.Class)) :
    dispatch first receiver method args m = dispatch second receiver method args m := by
  simp only [dispatch, bind_apply, object_apply]
  unfold bodyOf at missing
  cases held : m.heap.lookup receiver with
  | hosted handle written => rfl
  | interpreted contract fields =>
    cases contract with
    | none => rfl
    | some contract =>
      replace missing : contract.methods.get? method = none := by
        simpa [held, Object.contract?] using missing
      simp only [missing]

end Machine

open Machine

/-- A running method: the object it runs on and the statements that it has still to begin. -/
structure Frame where
  receiver : ObjectId
  rest : List Statement

/-- What the innermost frame has come to. -/
inductive Control (T : Toolkit) where
  /-- It calls a method of an object. -/
  | calling (receiver : ObjectId) (method : String) (args : List (Value T.Class))
  /-- What it called or began last has ended with this answer. -/
  | answered (value : Value T.Class)
  /-- What it called or began last has failed. -/
  | failed (e : Error)

structure Stage (T : Toolkit) where
  /-- The running methods, the innermost one first. -/
  frames : List Frame
  control : Control T
  machine : Machine T

namespace Stage

/-- The stage at the end of an action. -/
def after (frames : List Frame) : EStateM.Result Error (Machine T) (Value T.Class) → Stage T
  | .ok value m => ⟨frames, .answered value, m⟩
  | .error e m => ⟨frames, .failed e, m⟩

/-- Starts a method on top of the frames, if the machine counts fewer running methods than the limit
allows. -/
def enter (config : Config) (frames : List Frame) (receiver : ObjectId) (body : Method)
    (args : List (Value T.Class)) (m : Machine T) : Stage T :=
  if config.maxCallDepth ≤ m.depth then ⟨frames, .failed (.callDepth config.maxCallDepth), m⟩
  else match body.compile config.mode with
    | .error e => ⟨frames, .failed e, m⟩
    | .ok statements =>
      match bindParams receiver body.params args m with
      | .error e bound => ⟨frames, .failed e, bound⟩
      | .ok _ bound => ⟨⟨receiver, statements⟩ :: frames, .answered .null, bound.deeper⟩

/-- A method is refused for its depth, for its body or for a parameter, or it starts. -/
theorem enter_cases (config : Config) (frames : List Frame) (receiver : ObjectId) (body : Method)
    (args : List (Value T.Class)) (m : Machine T) :
    enter config frames receiver body args m =
      ⟨frames, .failed (.callDepth config.maxCallDepth), m⟩ ∨
    (∃ e, body.compile config.mode = .error e ∧
      enter config frames receiver body args m = ⟨frames, .failed e, m⟩) ∨
    (∃ e here, bindParams receiver body.params args m = .error e here ∧
      enter config frames receiver body args m = ⟨frames, .failed e, here⟩) ∨
    ∃ statements here, bindParams receiver body.params args m = .ok () here ∧
      enter config frames receiver body args m =
        ⟨⟨receiver, statements⟩ :: frames, .answered .null, here.deeper⟩ := by
  unfold enter
  split
  · exact .inl rfl
  · cases body.compile config.mode with
    | error e => exact .inr (.inl ⟨e, rfl, rfl⟩)
    | ok statements =>
      cases bindParams receiver body.params args m with
      | error e here => exact .inr (.inr (.inl ⟨e, here, rfl, rfl⟩))
      | ok x here => exact .inr (.inr (.inr ⟨statements, here, rfl, rfl⟩))

/-- Answers a call: by a new frame, or at once when no contract has a method for it. -/
def accept (config : Config) (frames : List Frame) (receiver : ObjectId) (method : String)
    (args : List (Value T.Class)) (m : Machine T) : Stage T :=
  match m.bodyOf receiver method with
  | some body => enter config frames receiver body args m
  | none => after frames (dispatch nothing receiver method args m)

/-- Begins a statement, up to the call that it makes if it makes one. -/
def begin (frames : List Frame) (receiver : ObjectId) (m : Machine T) : Statement → Stage T
  | .call target method operands =>
    match resolve receiver target m.begun with
    | .ok callee m =>
      ⟨frames, .calling callee method (operands.map (evaluate (m.heap.lookup receiver))), m⟩
    | .error e m => ⟨frames, .failed e, m⟩
  | statement => after frames ((step nothing receiver statement >>= fun _ => pure .null) m)

/-- A statement that is begun comes to the call of an object, or it ends without executing a
method. -/
theorem begin_cases (frames : List Frame) (receiver : ObjectId) (m : Machine T)
    (statement : Statement) :
    (∃ target method operands callee, statement = .call target method operands ∧
      (m.heap.lookup receiver).get? target = some (.object callee) ∧
      begin frames receiver m statement =
        ⟨frames, .calling callee method (operands.map (evaluate (m.heap.lookup receiver))),
          m.begun⟩) ∨
    begin frames receiver m statement =
      after frames ((step nothing receiver statement >>= fun _ => pure .null) m) := by
  cases statement with
  | call target method operands =>
    rcases resolve_cases receiver target m.begun with ⟨callee, found, ran⟩ | ⟨e, ran⟩
    · exact .inl ⟨target, method, operands, callee, rfl, found, by rw [begin, ran]; rfl⟩
    · right
      rw [begin, ran, bind_apply, step_apply]
      simp only [bind_apply, ran]
      rfl
  | construct target space cls => exact .inr rfl
  | print value => exact .inr rfl
  | assign target value => exact .inr rfl

/-- The next stage. There is none once no frame is left and the call is answered. -/
def next (config : Config) (s : Stage T) : Option (Stage T) :=
  match s.control, s.frames with
  | .calling receiver method args, frames =>
    some (accept config frames receiver method args s.machine)
  | .answered _, ⟨receiver, statement :: rest⟩ :: frames =>
    some (begin (⟨receiver, rest⟩ :: frames) receiver s.machine statement)
  | .answered _, ⟨_, []⟩ :: frames => some ⟨frames, .answered .null, s.machine.shallower⟩
  | .failed e, _ :: frames => some ⟨frames, .failed e, s.machine.shallower⟩
  | _, [] => none

/-- All that one step can do. -/
inductive Moves (config : Config) : Stage T → Stage T → Prop
  | accepts {frames receiver method args m} :
      Moves config ⟨frames, .calling receiver method args, m⟩
        (accept config frames receiver method args m)
  | begins {receiver statement rest frames value m} :
      Moves config ⟨⟨receiver, statement :: rest⟩ :: frames, .answered value, m⟩
        (begin (⟨receiver, rest⟩ :: frames) receiver m statement)
  | leaves {receiver frames value m} :
      Moves config ⟨⟨receiver, []⟩ :: frames, .answered value, m⟩
        ⟨frames, .answered .null, m.shallower⟩
  | unwinds {frame frames e m} :
      Moves config ⟨frame :: frames, .failed e, m⟩ ⟨frames, .failed e, m.shallower⟩

theorem moves_of_next {config : Config} {s t : Stage T} (steps : s.next config = some t) :
    Moves config s t := by
  obtain ⟨frames, control, m⟩ := s
  cases control with
  | calling receiver method args =>
    cases steps
    exact .accepts
  | answered value =>
    match frames with
    | [] => cases steps
    | ⟨receiver, []⟩ :: frames =>
      cases steps
      exact .leaves
    | ⟨receiver, statement :: rest⟩ :: frames =>
      cases steps
      exact .begins
  | failed e =>
    match frames with
    | [] => cases steps
    | frame :: frames =>
      cases steps
      exact .unwinds

/-- The second stage is reached from the first one. -/
def Reaches (config : Config) : Stage T → Stage T → Prop :=
  Relation.ReflTransGen fun s t => s.next config = some t

theorem Reaches.trans {config : Config} {s t u : Stage T} (first : Reaches config s t)
    (second : Reaches config t u) : Reaches config s u :=
  Relation.ReflTransGen.trans first second

theorem Reaches.step {config : Config} {s t u : Stage T} (first : s.next config = some t)
    (rest : Reaches config t u) : Reaches config s u :=
  Relation.ReflTransGen.head first rest

theorem reaches_begun {config : Config} {frames : List Frame} {receiver : ObjectId}
    {statement : Statement} {m : Machine T}
    (plain : begin frames receiver m statement =
      after frames ((step (execute config) receiver statement >>= fun _ => pure .null) m)) :
    Ends (step (execute config) receiver statement) m
      (fun _ here => ∃ value, Reaches config (begin frames receiver m statement)
        ⟨frames, .answered value, here⟩)
      (fun e here => Reaches config (begin frames receiver m statement)
        ⟨frames, .failed e, here⟩) := by
  unfold Ends
  rw [plain, bind_apply]
  cases step (execute config) receiver statement m with
  | ok x here => exact ⟨.null, .refl⟩
  | error e here => exact .refl

/-- The stage at the end of a frame, however its statements ended. -/
def leave (frames : List Frame) : EStateM.Result Error (Machine T) Unit → Stage T
  | .ok _ m => ⟨frames, .answered .null, m.shallower⟩
  | .error e m => ⟨frames, .failed e, m.shallower⟩

theorem after_nested (frames : List Frame) (a : Action T Unit) (m : Machine T) :
    after frames ((nested a >>= fun _ => pure .null) m) = leave frames (a m.deeper) := by
  rw [bind_apply]
  simp only [nested, deeper]
  cases a { m with depth := m.depth + 1 } <;> rfl

/-- A statement that calls is begun up to the call, and any other one is begun and ended. -/
theorem reaches_step {config : Config} {depth : Nat}
    (calls : ∀ frames receiver method args (m : Machine T), m.depth = depth →
      Reaches config ⟨frames, .calling receiver method args, m⟩
        (after frames (call config receiver method args m)))
    (frames : List Frame) (receiver : ObjectId) (statement : Statement) (m : Machine T)
    (level : m.depth = depth) :
    Ends (step (execute config) receiver statement) m
      (fun _ here => ∃ value, Reaches config (begin frames receiver m statement)
        ⟨frames, .answered value, here⟩)
      (fun e here => Reaches config (begin frames receiver m statement)
        ⟨frames, .failed e, here⟩) := by
  cases statement with
  | call target method operands =>
    unfold Ends
    rw [step_apply]
    simp only [bind_apply, object_apply, begin]
    rcases resolve_cases receiver target m.begun with ⟨callee, _, ran⟩ | ⟨e, ran⟩
    · have called := calls frames callee method
        (operands.map (evaluate (m.begun.heap.lookup receiver))) m.begun level
      rw [ran]
      unfold call at called
      cases ends : dispatch (execute config) callee method
          (operands.map (evaluate (m.begun.heap.lookup receiver))) m.begun with
      | ok value here =>
        rw [ends] at called
        simp only [ends]
        exact ⟨value, called⟩
      | error e here =>
        rw [ends] at called
        simp only [ends]
        exact called
    · rw [ran]
      exact .refl
  | construct target space cls => exact reaches_begun rfl
  | print value => exact reaches_begun rfl
  | assign target value => exact reaches_begun rfl

/-- By induction on the statements. The innermost frame runs them and is left. -/
theorem reaches_leave {config : Config} {depth : Nat}
    (calls : ∀ frames receiver method args (m : Machine T), m.depth = depth →
      Reaches config ⟨frames, .calling receiver method args, m⟩
        (after frames (call config receiver method args m)))
    (frames : List Frame) (receiver : ObjectId) (statements : List Statement)
    (value : Value T.Class) (m : Machine T) (level : m.depth = depth) :
    Reaches config ⟨⟨receiver, statements⟩ :: frames, .answered value, m⟩
      (leave frames (steps (execute config) receiver statements m)) := by
  induction statements generalizing value m with
  | nil => exact .single rfl
  | cons statement rest ih =>
    apply Reaches.step rfl
    have begun := reaches_step calls (⟨receiver, rest⟩ :: frames) receiver statement m level
    have kept := KeepsDepth.step (execute_keepsDepth config) receiver statement m
    unfold Ends at begun
    unfold leaves at kept
    unfold steps
    rw [bind_apply]
    cases ran : step (execute config) receiver statement m with
    | ok x here =>
      rw [ran] at begun kept
      obtain ⟨value, answered⟩ := begun
      exact answered.trans (ih value here (kept.trans level))
    | error e here =>
      rw [ran] at begun
      exact begun.trans (.single rfl)

/-- By induction on the room that the limit leaves: the calls of a body are made from machines with
one method more running. -/
theorem reaches_call (config : Config) (frames : List Frame) (receiver : ObjectId)
    (method : String) (args : List (Value T.Class)) (m : Machine T) :
    Reaches config ⟨frames, .calling receiver method args, m⟩
      (after frames (call config receiver method args m)) := by
  induction measured : config.maxCallDepth - m.depth using Nat.strongRecOn
    generalizing frames receiver method args m with
  | ind room ih =>
    apply Reaches.step rfl
    unfold accept call
    cases found : m.bodyOf receiver method with
    | none =>
      simp only [dispatch_of_noBody (execute config) nothing found]
      exact .refl
    | some body =>
      simp only [dispatch_of_body (execute config) found, bind_apply, execute_eq, enter]
      split
      · exact .refl
      · next fits =>
        unfold Machine.enter
        cases body.compile config.mode with
        | error e => exact .refl
        | ok statements =>
          simp only [bind_apply]
          have kept := KeepsDepth.compositional.sequential.bindParams receiver body.params args m
          unfold leaves at kept
          cases bound : bindParams receiver body.params args m with
          | error e here => exact .refl
          | ok x here =>
            rw [bound] at kept
            have less : config.maxCallDepth - here.deeper.depth < room := by
              simp only [deeper]
              simp only at kept
              omega
            have left := reaches_leave
              (fun frames receiver method args m level =>
                ih _ (level ▸ less) frames receiver method args m rfl)
              frames receiver statements .null here.deeper rfl
            rw [← after_nested, bind_apply] at left
            exact left

end Stage

end ContractScript
