import ContractScript.Proofs.Grey.Handle
import ContractScript.Proofs.Machine.Bound

/-!
Bodies that do not read. A body is read when its method is entered, so an error of a text may come
after statements of the methods that led there. Main statement: a call that fails with such an error
has come to a method whose body does not read, and is given up there with nothing else changed. It
began no statement if that is the method called first, and began one otherwise.
-/

namespace ContractScript

open ContractScript.Action

variable {T : Toolkit} {α β : Type}

/-- Classes and host objects report nothing about texts. -/
structure Toolkit.ReportsNoSyntax (T : Toolkit) : Prop where
  construct {cls e} : T.construct cls = .error e → e.isSyntax = false
  set {render handle name value e} :
    (T.set render handle name value).1 = .error e → e.isSyntax = false
  invoke {render handle method args e} :
    (T.invoke render handle method args).1 = .error e → e.isSyntax = false

theorem Grey.toolkit_reportsNoSyntax : Grey.toolkit.ReportsNoSyntax where
  construct refused := nomatch refused
  set refused := by
    obtain ⟨_, rfl⟩ := Handle.set_error refused
    rfl
  invoke refused := by
    obtain ⟨_, rfl⟩ := Handle.invoke_error refused
    rfl

namespace Action

/-- The errors of the action are none of a text. -/
def Semantic (a : Action T α) : Prop :=
  ∀ m e after, a m = .error e after → e.isSyntax = false

namespace Semantic

theorem pure (x : α) : Semantic (pure x : Action T α) := fun _ _ _ failed => nomatch failed

theorem throw {e : Error} (plain : e.isSyntax = false) : Semantic (throw e : Action T α) := by
  intro m e' after failed
  cases failed
  exact plain

theorem bind {a : Action T α} {f : α → Action T β} (first : Semantic a)
    (rest : ∀ x, Semantic (f x)) : Semantic (a >>= f) := by
  intro m e after failed
  rcases bind_eq_error failed with stopped | ⟨x, here, _, stopped⟩
  · exact first m e after stopped
  · exact rest x here e after stopped

theorem update {id : ObjectId}
    {operation : (Value T.Class → String) → Object T → Except Error α × Object T}
    (plain : ∀ render o e, (operation render o).1 = .error e → e.isSyntax = false) :
    Semantic (Machine.update id operation) := by
  intro m e after failed
  simp only [Machine.update] at failed
  split at failed
  · cases failed
  · next refused =>
    cases failed
    exact plain _ _ _ refused

end Semantic

end Action

namespace Machine

theorem object_semantic (id : ObjectId) : Semantic (object id : Action T _) :=
  fun _ _ _ failed => nomatch failed

theorem allocate_semantic (o : Object T) : Semantic (allocate o) :=
  fun _ _ _ failed => nomatch failed

theorem printLine_semantic (value : Value T.Class) : Semantic (printLine value) := by
  intro m e after failed
  simp only [printLine] at failed
  split at failed
  · cases failed
  · cases failed
    rfl

theorem resolve_semantic (receiver : ObjectId) (name : String) :
    Semantic (resolve receiver name : Action T _) := by
  apply Semantic.bind (object_semantic receiver)
  intro o
  split
  · exact .throw rfl
  · exact .throw rfl
  · exact .pure _
  · exact .throw rfl

section

variable (plain : T.ReportsNoSyntax)

include plain

theorem construct_semantic (receiver : ObjectId) (space cls : String) :
    Semantic (construct receiver space cls : Action T _) := by
  apply Semantic.bind (resolve_semantic receiver space)
  intro id
  apply Semantic.bind (object_semantic id)
  intro o
  split
  · split
    · exact allocate_semantic _
    · next refused => exact .throw (plain.construct refused)
  · exact .throw rfl

theorem setField_semantic (id : ObjectId) (name : String) (value : Value T.Class) :
    Semantic (setField id name value) := by
  apply Semantic.update
  intro render o e refused
  cases o with
  | interpreted contract fields => cases refused
  | hosted handle written => exact plain.set refused

theorem callHost_semantic (id : ObjectId) (method : String) (args : List (Value T.Class)) :
    Semantic (callHost id method args) := by
  apply Semantic.update
  intro render o e refused
  cases o with
  | interpreted contract fields =>
    cases refused
    rfl
  | hosted handle written =>
    rcases callHost_eq_error refused with ⟨_, stopped⟩ | stopped | rfl
    · exact plain.set stopped
    · exact plain.invoke stopped
    · rfl

theorem bindParams_semantic (receiver : ObjectId) (params : List String)
    (args : List (Value T.Class)) : Semantic (bindParams receiver params args) := by
  induction params generalizing args with
  | nil => exact .pure _
  | cons param params ih =>
    apply Semantic.bind (setField_semantic plain receiver param _)
    exact fun _ => ih args.tail

theorem dispatch_nothing_semantic (receiver : ObjectId) (method : String)
    (args : List (Value T.Class)) : Semantic (dispatch nothing receiver method args) := by
  apply Semantic.bind (object_semantic receiver)
  intro o
  match o with
  | .hosted .. => exact callHost_semantic plain receiver method args
  | .interpreted none _ => exact .throw rfl
  | .interpreted (some contract) _ =>
    cases found : contract.methods.get? method with
    | none => simpa only [found] using Semantic.throw rfl
    | some body =>
      simp only [found]
      exact (Semantic.pure ()).bind fun _ => .pure _

theorem step_nothing_semantic (receiver : ObjectId) (statement : Statement) :
    Semantic (step nothing receiver statement : Action T _) := by
  have begins : Semantic (modify begun : Action T PUnit) := fun _ _ _ failed => nomatch failed
  apply begins.bind
  intro _
  cases statement with
  | construct target space cls =>
    apply Semantic.bind (construct_semantic plain receiver space cls)
    exact fun made => setField_semantic plain receiver target _
  | call target method args =>
    apply Semantic.bind (resolve_semantic receiver target)
    intro callee
    apply Semantic.bind (object_semantic receiver)
    intro o
    exact (dispatch_nothing_semantic plain callee method _).bind fun _ => .pure _
  | print value =>
    apply Semantic.bind (object_semantic receiver)
    exact fun o => printLine_semantic _
  | assign target value =>
    apply Semantic.bind (object_semantic receiver)
    exact fun o => setField_semantic plain receiver target _

end

end Machine

open Machine

namespace Stage

variable {config : Config} {s t : Stage T} {e : Error}

/-- The stage calls a method of a contract whose body does not read. -/
def Refuses (config : Config) (s : Stage T) (e : Error) : Prop :=
  ∃ receiver method args body, s.control = .calling receiver method args ∧
    s.machine.bodyOf receiver method = some body ∧ body.compile config.mode = .error e

/-! ### Where an error of a text comes from -/

theorem after_semantic {frames : List Frame} {a : Action T (Value T.Class)} {m : Machine T}
    (plain : Semantic a) (failed : (after frames (a m)).control = .failed e) :
    e.isSyntax = false := by
  cases ran : a m with
  | ok value here =>
    rw [ran] at failed
    cases failed
  | error e' here =>
    rw [ran] at failed
    cases failed
    exact plain m _ here ran

theorem enter_refuses {frames : List Frame} {receiver : ObjectId} {body : Method}
    {args : List (Value T.Class)} {m : Machine T} (plain : T.ReportsNoSyntax)
    (failed : (enter config frames receiver body args m).control = .failed e)
    (syntactic : e.isSyntax = true) :
    body.compile config.mode = .error e ∧
      (enter config frames receiver body args m).machine = m := by
  rcases enter_cases config frames receiver body args m with
    entered | ⟨_, unread, entered⟩ | ⟨_, here, bound, entered⟩ | ⟨_, here, _, entered⟩
  · rw [entered] at failed
    cases failed
    cases syntactic
  · rw [entered] at failed ⊢
    cases failed
    exact ⟨unread, rfl⟩
  · rw [entered] at failed
    cases failed
    have semantic := bindParams_semantic plain receiver body.params args m _ here bound
    simp [semantic] at syntactic
  · rw [entered] at failed
    cases failed

theorem begin_semantic {frames : List Frame} {receiver : ObjectId} {m : Machine T}
    {statement : Statement} (plain : T.ReportsNoSyntax)
    (failed : (begin frames receiver m statement).control = .failed e) : e.isSyntax = false := by
  rcases begin_cases frames receiver m statement with ⟨_, _, _, _, _, _, calls⟩ | whole
  · rw [calls] at failed
    cases failed
  · rw [whole] at failed
    exact after_semantic ((step_nothing_semantic plain receiver statement).bind fun _ => .pure _)
      failed

/-- A frame that is left hands an error on, and only a body that does not read makes a new one. -/
theorem next_origin (plain : T.ReportsNoSyntax) (steps : s.next config = some t)
    (failed : t.control = .failed e) (syntactic : e.isSyntax = true) :
    (s.Refuses config e ∧ t.machine = s.machine) ∨
      (s.control = .failed e ∧ t.machine = s.machine.shallower) := by
  cases moves_of_next steps with
  | @accepts frames receiver method args m =>
    unfold accept at failed ⊢
    cases found : m.bodyOf receiver method with
    | some body =>
      simp only [found] at failed ⊢
      obtain ⟨unread, same⟩ := enter_refuses plain failed syntactic
      exact .inl ⟨⟨receiver, method, args, body, rfl, found, unread⟩, same⟩
    | none =>
      simp only [found] at failed
      have semantic := after_semantic (dispatch_nothing_semantic plain receiver method args) failed
      simp [semantic] at syntactic
  | begins =>
    have semantic := begin_semantic plain failed
    simp [semantic] at syntactic
  | leaves => cases failed
  | unwinds =>
    cases failed
    exact .inr ⟨rfl, rfl⟩

/-- By induction on the steps, the last one first. -/
theorem reaches_origin (plain : T.ReportsNoSyntax) (called : ∀ e, s.control ≠ .failed e)
    (run : Reaches config s t) (failed : t.control = .failed e) (syntactic : e.isSyntax = true) :
    ∃ u, Reaches config s u ∧ u.Refuses config e ∧
      t.machine = { u.machine with depth := t.machine.depth } := by
  induction run with
  | refl => exact absurd failed (called e)
  | @tail there t run steps ih =>
    rcases next_origin plain steps failed syntactic with ⟨refuses, same⟩ | ⟨before, left⟩
    · exact ⟨there, run, refuses, by rw [same]⟩
    · obtain ⟨u, reached, refuses, same⟩ := ih before
      refine ⟨u, reached, refuses, ?_⟩
      rw [left, shallower, same]

/-! ### The statements begun on the way -/

/-- The stage calls a method of an object. -/
def Calls (s : Stage T) : Prop :=
  ∃ receiver method args, s.control = .calling receiver method args

theorem after_executed (frames : List Frame) (a : Action T (Value T.Class)) (m : Machine T) :
    (after frames (a m)).machine.executed = (leaves a m).executed ∧
      ¬(after frames (a m)).Calls := by
  unfold leaves
  cases a m with
  | ok value here => exact ⟨rfl, by rintro ⟨_, _, _, ⟨⟩⟩⟩
  | error e here => exact ⟨rfl, by rintro ⟨_, _, _, ⟨⟩⟩⟩

theorem enter_executed (config : Config) (frames : List Frame) (receiver : ObjectId)
    (body : Method) (args : List (Value T.Class)) (m : Machine T) :
    (enter config frames receiver body args m).machine.executed = m.executed ∧
      ¬(enter config frames receiver body args m).Calls := by
  have same : (leaves (bindParams receiver body.params args) m).executed = m.executed := by
    rw [bindParams_onlyObjects]
  unfold leaves at same
  rcases enter_cases config frames receiver body args m with
    entered | ⟨_, _, entered⟩ | ⟨_, _, bound, entered⟩ | ⟨_, _, bound, entered⟩
  · rw [entered]
    exact ⟨rfl, by rintro ⟨_, _, _, ⟨⟩⟩⟩
  · rw [entered]
    exact ⟨rfl, by rintro ⟨_, _, _, ⟨⟩⟩⟩
  · rw [bound] at same
    rw [entered]
    exact ⟨same, by rintro ⟨_, _, _, ⟨⟩⟩⟩
  · rw [bound] at same
    rw [entered]
    exact ⟨same, by rintro ⟨_, _, _, ⟨⟩⟩⟩

theorem begin_executed (frames : List Frame) (receiver : ObjectId) (m : Machine T)
    (statement : Statement) :
    (begin frames receiver m statement).machine.executed = m.executed + 1 := by
  rcases begin_cases frames receiver m statement with ⟨_, _, _, _, _, _, calls⟩ | whole
  · rw [calls]
    rfl
  · rw [whole, (after_executed ..).1, leaves_bind_pure, step_nothing_executed]

/-- A step comes to a call by beginning a statement, and by that alone. -/
theorem next_executed (steps : s.next config = some t) :
    s.machine.executed ≤ t.machine.executed ∧
      (t.Calls → s.machine.executed < t.machine.executed) := by
  cases moves_of_next steps with
  | @accepts frames receiver method args m =>
    unfold accept
    cases m.bodyOf receiver method with
    | some body =>
      obtain ⟨same, uncalled⟩ := enter_executed config frames receiver body args m
      exact ⟨Nat.le_of_eq same.symm, fun called => absurd called uncalled⟩
    | none =>
      obtain ⟨same, uncalled⟩ := after_executed frames (dispatch nothing receiver method args) m
      rw [dispatch_nothing_onlyObjects receiver method args m] at same
      exact ⟨Nat.le_of_eq same.symm, fun called => absurd called uncalled⟩
  | begins =>
    rw [begin_executed]
    exact ⟨Nat.le_succ _, fun _ => Nat.lt_succ_self _⟩
  | leaves => exact ⟨Nat.le_refl _, by rintro ⟨_, _, _, ⟨⟩⟩⟩
  | unwinds => exact ⟨Nat.le_refl _, by rintro ⟨_, _, _, ⟨⟩⟩⟩

theorem reaches_executed_le (run : Reaches config s t) :
    s.machine.executed ≤ t.machine.executed := by
  induction run with
  | refl => exact Nat.le_refl _
  | tail _ steps ih => exact ih.trans (next_executed steps).1

/-- Between two calls a statement is begun. -/
theorem reaches_executed_lt (run : Reaches config s t) (called : t.Calls) (later : t ≠ s) :
    s.machine.executed < t.machine.executed := by
  cases run with
  | refl => exact absurd rfl later
  | tail run steps =>
    exact Nat.lt_of_le_of_lt (reaches_executed_le run) ((next_executed steps).2 called)

end Stage

namespace Machine

/-- A call that fails with an error of a text has come to a method whose body does not read, and
leaves what it found there. Nothing has happened by then if that is the method called first;
otherwise statements were begun, and what they did stays done. -/
theorem call_refused (plain : T.ReportsNoSyntax) {config : Config} {receiver : ObjectId}
    {method : String} {args : List (Value T.Class)} {m after : Machine T} {e : Error}
    (failed : call config receiver method args m = .error e after)
    (syntactic : e.isSyntax = true) :
    (∃ stage, (Stage.calls receiver method args m).Reaches config stage ∧
      stage.Refuses config e ∧ after = { stage.machine with depth := m.depth }) ∧
    ((Stage.calls receiver method args m).Refuses config e → after = m) ∧
    (¬(Stage.calls receiver method args m).Refuses config e → m.executed < after.executed) := by
  have run := Stage.reaches_call config [] receiver method args m
  have depth := call_keepsDepth config receiver method args m
  unfold leaves at depth
  rw [failed] at run depth
  obtain ⟨stage, reached, refuses, same⟩ :=
    Stage.reaches_origin plain (fun _ => by rintro ⟨⟩) run rfl syntactic
  replace same : after = { stage.machine with depth := m.depth } := by
    simpa only [Stage.after, depth] using same
  refine ⟨⟨stage, reached, refuses, same⟩, ?_, fun elsewhere => ?_⟩
  · rintro ⟨_, _, _, body, ⟨⟩, found, unread⟩
    have ran : call config receiver method args m =
        (execute config receiver body args >>= fun _ => pure .null) m :=
      dispatch_of_body _ found args
    rw [failed, bind_apply, execute_eq] at ran
    split at ran
    · cases ran
    · next running =>
      split at running
      · cases running
        cases ran
        rfl
      · simp only [enter, unread] at running
        cases running
        cases ran
        rfl
  · have later : stage ≠ Stage.calls receiver method args m := by
      rintro rfl
      exact elsewhere refuses
    obtain ⟨_, _, _, _, called, _⟩ := refuses
    rw [same]
    exact Stage.reaches_executed_lt reached ⟨_, _, _, called⟩ later

/-- A method that writes a field and a line before it calls a method of its own object. -/
def stumble : Method :=
  ⟨"main", .exposed, [], "Void", Token.scan "let x = 1; print(x); me.broken();"⟩

/-- A method whose body does not read. -/
def broken : Method := ⟨"broken", .exposed, [], "Void", Token.scan "oops"⟩

/-- An instance with both methods that refers to itself. -/
def stumbling : Machine Grey.toolkit where
  heap := Heap.empty.push (.interpreted
    (some (((Contract.named "App").addMethod stumble).addMethod broken))
    (Table.ofList [("me", .object 0)]))
  sink := .unlimited
  depth := 0
  executed := 0

theorem call_refused_stumbling :
    Grey.toolkit.ReportsNoSyntax ∧
    call {} 0 "broken" [] stumbling = .error (.unrecognized "broken" 0 "oops") stumbling ∧
    ∃ e after, call {} 0 "main" [] stumbling = .error e after ∧ e.isSyntax = true ∧
      stumbling.executed < after.executed := by
  have plain := Grey.toolkit_reportsNoSyntax
  refine ⟨plain, ?_, ?_⟩
  · have stops : failsBy (fun e => e = .unrecognized "broken" 0 "oops")
        (call {} 0 "broken" []) stumbling = true := by decide +kernel
    obtain ⟨e, after, failed, same⟩ := exists_error_of_failsBy stops
    obtain rfl : e = .unrecognized "broken" 0 "oops" := by simpa using same
    have unread : broken.compile .strict = .error (.unrecognized "broken" 0 "oops") := by
      decide +kernel
    obtain rfl := (call_refused plain failed rfl).2.1 ⟨0, "broken", [], broken, rfl, rfl, unread⟩
    exact failed
  · have fails : failsBy Error.isSyntax (call {} 0 "main" []) stumbling = true := by
      decide +kernel
    obtain ⟨e, after, failed, syntactic⟩ := exists_error_of_failsBy fails
    refine ⟨e, after, failed, syntactic, (call_refused plain failed syntactic).2.2 ?_⟩
    rintro ⟨_, _, _, body, ⟨⟩, found, unread⟩
    obtain rfl : stumble = body := Option.some.inj found
    replace unread : stumble.compile .strict = .error e := unread
    have reads : (stumble.compile .strict).isOk = true := by decide +kernel
    rw [unread] at reads
    cases reads

/-- The error of a text that ends this call comes after three statements, a line and a field. -/
theorem stumbling_refused_late :
    failsBy Error.isSyntax (call {} 0 "main" []) stumbling = true ∧
      stumbling.executed = 0 ∧ stumbling.sink.written = #[] ∧
      (stumbling.heap.lookup 0).fields.keys = ["me"] ∧
      (leaves (call {} 0 "main" []) stumbling).executed = 3 ∧
      (leaves (call {} 0 "main" []) stumbling).sink.written = "1\n".toUTF8.data ∧
      ((leaves (call {} 0 "main" []) stumbling).heap.lookup 0).fields.keys = ["me", "x"] := by
  decide +kernel

end Machine

end ContractScript
