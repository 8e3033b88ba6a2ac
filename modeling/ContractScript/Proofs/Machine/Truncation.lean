import ContractScript.Proofs.Machine.Bound

/-!
Output that is cut off. A sink with a limit changes nothing about an action whose output it can
hold. When it cannot, the stages of the action are those without a limit, up to the first print that
goes beyond it; this print fails, every frame is left with its error, and nothing else is begun.
-/

namespace ContractScript

open ContractScript.Action

variable {T : Toolkit} {α β : Type}

namespace Sink

/-- The sink with the same contents that takes `limit` bytes in all. -/
def within (limit : Nat) (s : Sink) : Sink := ⟨some (limit - s.written.size), s.written⟩

theorem Continues.size_le {s t : Sink} (continues : Continues s t) :
    s.written.size ≤ t.written.size := by
  obtain ⟨more, written⟩ := continues
  simp [written]

/-- A limit that the later sink is beyond cuts both at the same place, if the earlier one reaches
that far. -/
theorem Continues.take_eq {s t : Sink} (continues : Continues s t) {limit : Nat}
    (reached : limit ≤ s.written.size) : t.written.take limit = s.written.take limit := by
  obtain ⟨more, written⟩ := continues
  have none_left : limit - s.written.size = 0 := Nat.sub_eq_zero_of_le reached
  simp [written, Array.take_eq_extract, Array.extract_append, none_left]

theorem write_unlimited {s : Sink} (room : s.room = none) (bytes : Array UInt8) :
    s.write bytes = (true, ⟨none, s.written ++ bytes⟩) := by
  simp [write, room]

theorem write_within {s : Sink} {limit : Nat} {bytes : Array UInt8}
    (fits : (s.written ++ bytes).size ≤ limit) :
    (s.within limit).write bytes =
      (true, ⟨some (limit - (s.written ++ bytes).size), s.written ++ bytes⟩) := by
  rw [Array.size_append] at fits ⊢
  have room : bytes.size ≤ limit - s.written.size := by omega
  simp only [write, within, if_pos room, Nat.sub_sub]

theorem write_within_of_beyond {s : Sink} {limit : Nat} (keeps : s.written.size ≤ limit)
    {bytes : Array UInt8} (beyond : limit < (s.written ++ bytes).size) :
    (s.within limit).write bytes = (false, ⟨some 0, (s.written ++ bytes).take limit⟩) := by
  rw [Array.size_append] at beyond
  have full : ¬ bytes.size ≤ limit - s.written.size := by omega
  have front : s.written.extract 0 limit = s.written := Array.extract_eq_self_of_le keeps
  simp only [write, within, if_neg full, Array.take_eq_extract, Array.extract_append, front,
    Nat.zero_sub]

end Sink

namespace Machine

def within (limit : Nat) (m : Machine T) : Machine T := { m with sink := m.sink.within limit }

def lineOf (m : Machine T) (value : Value T.Class) : Array UInt8 :=
  (m.heap.render value).toUTF8.data ++ "\n".toUTF8.data

theorem printLine_unlimited {m : Machine T} (room : m.sink.room = none) (value : Value T.Class) :
    printLine value m =
      .ok () { m with sink := ⟨none, m.sink.written ++ m.lineOf value⟩ } := by
  simp only [printLine, Sink.write_unlimited room, lineOf]

theorem printLine_within {m : Machine T} {limit : Nat} {value : Value T.Class}
    (fits : (m.sink.written ++ m.lineOf value).size ≤ limit) :
    printLine value (m.within limit) =
      .ok () ({ m with sink := ⟨none, m.sink.written ++ m.lineOf value⟩ }.within limit) := by
  have whole := Sink.write_within fits
  unfold lineOf at whole
  simp only [printLine, within, lineOf, whole]
  rfl

theorem printLine_within_of_beyond {m : Machine T} {limit : Nat}
    (keeps : m.sink.written.size ≤ limit) {value : Value T.Class}
    (beyond : limit < (m.sink.written ++ m.lineOf value).size) :
    printLine value (m.within limit) = .error (.output Sink.full)
      { m with sink := ⟨some 0, (m.sink.written ++ m.lineOf value).take limit⟩ } := by
  have cut := Sink.write_within_of_beyond keeps beyond
  unfold lineOf at cut
  simp only [printLine, within, lineOf, cut]

end Machine

namespace Action

/-- The same end, in a machine whose sink takes `limit` bytes in all. -/
def endWithin (limit : Nat) :
    EStateM.Result Error (Machine T) α → EStateM.Result Error (Machine T) α
  | .ok x after => .ok x (after.within limit)
  | .error e after => .error e (after.within limit)

/-- The action prints to any sink alike, as long as the sink can hold its output. -/
structure Fits (a : Action T α) : Prop where
  grows : Grows a
  unlimited : ∀ m, m.sink.room = none → (leaves a m).sink.room = none
  same : ∀ m limit, m.sink.room = none → (leaves a m).sink.written.size ≤ limit →
    a (m.within limit) = endWithin limit (a m)

namespace Fits

theorem bind {a : Action T α} {f : α → Action T β} (first : Fits a) (rest : ∀ x, Fits (f x)) :
    Fits (a >>= f) := by
  refine ⟨first.grows.bind fun x => (rest x).grows, fun m room => ?_, fun m limit room fits => ?_⟩
  · apply leaves_bind_of (P := fun after => after.sink.room = none) (first.unlimited m room)
    exact fun x here => (rest x).unlimited here
  · have before := (Grows.after a (fun x => (rest x).grows) m).size_le
    have kept := first.unlimited m room
    have same := first.same m limit room (Nat.le_trans before fits)
    rw [bind_apply, bind_apply, same]
    rw [leaves_bind] at fits
    unfold leaves at kept
    cases ran : a m with
    | ok x here =>
      rw [ran] at fits kept
      exact (rest x).same here limit kept fits
    | error e here => rfl

theorem nested {a : Action T α} (inner : Fits a) : Fits (Machine.nested a) := by
  refine ⟨inner.grows.nested, fun m room => ?_, fun m limit room fits => ?_⟩
  · rw [leaves_nested_sink]
    exact inner.unlimited _ room
  · rw [leaves_nested_sink] at fits
    have same := inner.same { m with depth := m.depth + 1 } limit room fits
    simp only [Machine.within] at same
    simp only [Machine.nested, Machine.within, same]
    cases a { m with depth := m.depth + 1 } <;> rfl

/-- An action that no more than changes objects fits, if it does not look at the sink. -/
theorem of_onlyObjects {a : Action T α} (only : OnlyObjects a)
    (blind : ∀ m limit, a (m.within limit) = endWithin limit (a m)) : Fits a := by
  refine ⟨fun m => ?_, fun m room => ?_, fun m limit _ _ => blind m limit⟩
  · rw [only m]
    exact .refl _
  · rw [only m]
    exact room

theorem printLine (value : Value T.Class) : Fits (Machine.printLine value) := by
  refine ⟨Grows.compositional.printLine value, fun m room => ?_, fun m limit room fits => ?_⟩
  · rw [leaves_of_ok (Machine.printLine_unlimited room value)]
  · rw [leaves_of_ok (Machine.printLine_unlimited room value)] at fits
    rw [Machine.printLine_unlimited room, Machine.printLine_within fits, endWithin]

theorem compositional :
    Machine.Compositional fun {α} (a : Action T α) (_ : Action T α) => Fits a where
  pure x := of_onlyObjects (.pure x) fun _ _ => rfl
  throw e := of_onlyObjects (.throw e) fun _ _ => rfl
  bind := bind
  object id := of_onlyObjects (Machine.object_onlyObjects id) fun _ _ => rfl
  allocate o := of_onlyObjects (Machine.allocate_onlyObjects o) fun _ _ => rfl
  update id operation := by
    refine of_onlyObjects (Machine.update_onlyObjects id operation) fun m limit => ?_
    simp only [Machine.update, Machine.within]
    cases (operation (m.heap.renderExcept id) (m.heap.lookup id)).1 <;> rfl
  printLine := printLine
  begin := ⟨fun _ => .refl _, fun _ room => room, fun _ _ _ _ => rfl⟩

end Fits

end Action

namespace Machine

theorem execute_fits (config : Config) (receiver : ObjectId) (method : Method)
    (args : List (Value T.Class)) : Fits (execute config receiver method args) := by
  have inner (frames : Nat) : Fits (executeWithin config frames receiver method args) :=
    Fits.compositional.executeWithin .nested config frames receiver method args
  exact ⟨fun m => (inner _).grows m, fun m => (inner _).unlimited m,
    fun m limit => (inner (config.maxCallDepth - m.depth)).same m limit⟩

theorem call_fits (config : Config) (receiver : ObjectId) (method : String)
    (args : List (Value T.Class)) : Fits (call config receiver method args) :=
  Fits.compositional.sequential.dispatch (execute config) (execute config) (execute_fits config)
    receiver method args

theorem nothing_fits (receiver : ObjectId) (method : Method) (args : List (Value T.Class)) :
    Fits (nothing receiver method args) :=
  Fits.compositional.pure ()

theorem dispatch_nothing_fits (receiver : ObjectId) (method : String)
    (args : List (Value T.Class)) : Fits (dispatch nothing receiver method args) :=
  Fits.compositional.sequential.dispatch nothing nothing nothing_fits receiver method args

theorem step_nothing_fits (receiver : ObjectId) (statement : Statement) :
    Fits (step (T := T) nothing receiver statement) :=
  Fits.compositional.step nothing nothing nothing_fits receiver statement

end Machine

namespace Stage

open Machine

def within (limit : Nat) (s : Stage T) : Stage T := { s with machine := s.machine.within limit }

def output (s : Stage T) : Array UInt8 := s.machine.sink.written

/-- The stage after the parameters of a method are bound. -/
def entered (frames : List Frame) (receiver : ObjectId) (statements : List Statement) :
    EStateM.Result Error (Machine T) Unit → Stage T
  | .ok _ m => ⟨⟨receiver, statements⟩ :: frames, .answered .null, m.deeper⟩
  | .error e m => ⟨frames, .failed e, m⟩

/-- The stage after the object of a call is resolved. -/
def resolved (frames : List Frame) (receiver : ObjectId) (method : String)
    (operands : List Operand) : EStateM.Result Error (Machine T) ObjectId → Stage T
  | .ok callee m =>
    ⟨frames, .calling callee method (operands.map (evaluate (m.heap.lookup receiver))), m⟩
  | .error e m => ⟨frames, .failed e, m⟩

/-- The stage that `next` makes of a machine is the same under every limit that it keeps to. -/
structure Follows (next : Machine T → Stage T) (m : Machine T) : Prop where
  continues : m.sink.Continues (next m).machine.sink
  unlimited : (next m).machine.sink.room = none
  same : ∀ limit, (next m).output.size ≤ limit → next (m.within limit) = (next m).within limit

namespace Follows

variable {m : Machine T}

theorem of_eq {next next' : Machine T → Stage T} (follows : Follows next' m)
    (agree : ∀ n : Machine T, n.heap = m.heap → n.depth = m.depth → next n = next' n) :
    Follows next m := by
  have here := agree m rfl rfl
  refine ⟨here ▸ follows.continues, here ▸ follows.unlimited, fun limit keeps => ?_⟩
  rw [here] at keeps
  rw [here, agree (m.within limit) rfl rfl]
  exact follows.same limit keeps

/-- A stage that an action leads to, with the machine that the action leaves. -/
theorem of_action (room : m.sink.room = none) {a : Action T α} (fits : Fits a)
    (stage : EStateM.Result Error (Machine T) α → Stage T)
    (onOk : ∀ x after, (stage (.ok x after)).machine.sink = after.sink)
    (onError : ∀ e after, (stage (.error e after)).machine.sink = after.sink)
    (commutes : ∀ limit result, stage (endWithin limit result) = (stage result).within limit) :
    Follows (fun m => stage (a m)) m := by
  have left : (stage (a m)).machine.sink = (leaves a m).sink := by
    unfold leaves
    cases a m with
    | ok x here => exact onOk x here
    | error e here => exact onError e here
  refine ⟨left ▸ fits.grows m, left ▸ fits.unlimited m room, fun limit keeps => ?_⟩
  rw [output, left] at keeps
  rw [fits.same m limit room keeps, commutes]

variable (room : m.sink.room = none)

include room

theorem after (frames : List Frame) {a : Action T (Value T.Class)} (fits : Fits a) :
    Follows (fun m => after frames (a m)) m :=
  of_action room fits (Stage.after frames) (fun _ _ => rfl) (fun _ _ => rfl)
    fun _ result => by cases result <;> rfl

theorem fail (frames : List Frame) (e : Error) : Follows (fun m => ⟨frames, .failed e, m⟩) m :=
  after room frames (a := throw e) (Fits.compositional.throw e)

theorem enter (config : Config) (frames : List Frame) (receiver : ObjectId) (body : Method)
    (args : List (Value T.Class)) : Follows (enter config frames receiver body args) m := by
  by_cases full : config.maxCallDepth ≤ m.depth
  · refine (fail room frames (.callDepth config.maxCallDepth)).of_eq fun n _ depth => ?_
    rw [Stage.enter, depth, if_pos full]
  · cases reads : body.compile config.mode with
    | error e =>
      refine (fail room frames e).of_eq fun n _ depth => ?_
      rw [Stage.enter, depth, if_neg full, reads]
    | ok statements =>
      have binds := of_action room
        (Fits.compositional.sequential.bindParams receiver body.params args)
        (entered frames receiver statements) (fun _ _ => rfl) (fun _ _ => rfl)
        fun _ result => by cases result <;> rfl
      refine binds.of_eq fun n _ depth => ?_
      rw [Stage.enter, depth, if_neg full, reads]
      cases bindParams receiver body.params args n <;> rfl

theorem accept (config : Config) (frames : List Frame) (receiver : ObjectId) (method : String)
    (args : List (Value T.Class)) : Follows (accept config frames receiver method args) m := by
  cases found : m.bodyOf receiver method with
  | none =>
    refine (after room frames (dispatch_nothing_fits receiver method args)).of_eq
      fun n heap _ => ?_
    rw [bodyOf] at found
    rw [Stage.accept, bodyOf, heap, found]
  | some body =>
    refine (enter room config frames receiver body args).of_eq fun n heap _ => ?_
    rw [bodyOf] at found
    rw [Stage.accept, bodyOf, heap, found]

theorem begin (frames : List Frame) (receiver : ObjectId) (statement : Statement) :
    Follows (fun m => begin frames receiver m statement) m := by
  have begins : Fits (modify begun : Action T Unit) := Fits.compositional.begin
  cases statement with
  | call target method operands =>
    have resolves : Fits (modify begun >>= fun _ => resolve receiver target : Action T ObjectId) :=
      begins.bind fun _ => Fits.compositional.sequential.resolve receiver target
    refine (of_action room resolves (resolved frames receiver method operands) (fun _ _ => rfl)
      (fun _ _ => rfl) fun _ result => by cases result <;> rfl).of_eq fun n _ _ => ?_
    change _ = resolved frames receiver method operands (resolve receiver target n.begun)
    rw [Stage.begin]
    cases resolve receiver target n.begun <;> rfl
  | _ => exact after room frames ((step_nothing_fits receiver _).bind fun _ =>
      Fits.compositional.pure Value.null)

end Follows

/-- What is next depends on the frames and the control as a function of the machine, which follows
the limit. -/
theorem exists_follows {config : Config} {s t : Stage T} (room : s.machine.sink.room = none)
    (steps : s.next config = some t) :
    ∃ next, Follows next s.machine ∧
      ∀ n, Stage.next config ⟨s.frames, s.control, n⟩ = some (next n) := by
  cases moves_of_next steps with
  | @accepts frames receiver method args =>
    exact ⟨_, Follows.accept room config frames receiver method args, fun _ => rfl⟩
  | @begins receiver statement rest frames =>
    exact ⟨_, Follows.begin room (⟨receiver, rest⟩ :: frames) receiver statement, fun _ => rfl⟩
  | @leaves _ frames =>
    refine ⟨fun n => ⟨frames, .answered .null, n.shallower⟩, ?_, fun _ => rfl⟩
    exact ⟨.refl _, room, fun _ _ => rfl⟩
  | @unwinds _ frames e =>
    refine ⟨fun n => ⟨frames, .failed e, n.shallower⟩, ?_, fun _ => rfl⟩
    exact ⟨.refl _, room, fun _ _ => rfl⟩

theorem next_continues {config : Config} {s t : Stage T} (room : s.machine.sink.room = none)
    (steps : s.next config = some t) :
    s.machine.sink.Continues t.machine.sink ∧ t.machine.sink.room = none := by
  obtain ⟨next, follows, next_eq⟩ := exists_follows room steps
  obtain rfl := Option.some.inj ((next_eq s.machine).symm.trans steps)
  exact ⟨follows.continues, follows.unlimited⟩

theorem next_within {config : Config} {s t : Stage T} (room : s.machine.sink.room = none)
    (steps : s.next config = some t) {limit : Nat} (keeps : t.output.size ≤ limit) :
    (s.within limit).next config = some (t.within limit) := by
  obtain ⟨next, follows, next_eq⟩ := exists_follows room steps
  obtain rfl := Option.some.inj ((next_eq s.machine).symm.trans steps)
  exact (next_eq _).trans (congrArg some (follows.same limit keeps))

theorem reaches_within {config : Config} {s t : Stage T} (room : s.machine.sink.room = none)
    (run : Reaches config s t) :
    s.machine.sink.Continues t.machine.sink ∧ t.machine.sink.room = none ∧
      ∀ limit, t.output.size ≤ limit → Reaches config (s.within limit) (t.within limit) := by
  -- The output only grows, so a limit that the last stage keeps to was kept to all along.
  induction run with
  | refl => exact ⟨.refl _, room, fun _ _ => .refl⟩
  | tail _ steps ih =>
    obtain ⟨continues, unlimited, within⟩ := ih
    have step := next_continues unlimited steps
    refine ⟨continues.trans step.1, step.2, fun limit keeps => ?_⟩
    exact (within limit (Nat.le_trans step.1.size_le keeps)).tail
      (next_within unlimited steps keeps)

/-- A run that goes beyond a limit does so at one of its steps. -/
theorem exists_crossing {config : Config} {s t : Stage T} (run : Reaches config s t) {limit : Nat}
    (keeps : s.output.size ≤ limit) (beyond : limit < t.output.size) :
    ∃ p q, Reaches config s p ∧ p.next config = some q ∧ Reaches config q t ∧
      p.output.size ≤ limit ∧ limit < q.output.size := by
  induction run with
  | refl => exact absurd keeps (Nat.not_le_of_lt beyond)
  | @tail u t before steps ih =>
    by_cases crossed : limit < u.output.size
    · obtain ⟨p, q, toP, next, fromQ, below, above⟩ := ih crossed
      exact ⟨p, q, toP, next, fromQ.tail steps, below, above⟩
    · exact ⟨u, t, before, steps, .refl, Nat.le_of_not_lt crossed, beyond⟩

/-- The innermost frame is about to print. -/
def Prints (s : Stage T) : Prop :=
  ∃ receiver value rest frames answer,
    s.frames = ⟨receiver, .print value :: rest⟩ :: frames ∧ s.control = .answered answer

theorem after_machine (frames : List Frame) (a : Action T (Value T.Class)) (m : Machine T) :
    (after frames (a m)).machine = leaves a m := by
  unfold leaves
  cases a m <;> rfl

theorem enter_sink (config : Config) (frames : List Frame) (receiver : ObjectId) (body : Method)
    (args : List (Value T.Class)) (m : Machine T) :
    (enter config frames receiver body args m).machine.sink = m.sink := by
  unfold enter
  split
  · rfl
  · split
    · rfl
    · have kept := congrArg Machine.sink (bindParams_onlyObjects receiver body.params args m)
      unfold leaves at kept
      split <;> next ran => rwa [ran] at kept

theorem accept_sink (config : Config) (frames : List Frame) (receiver : ObjectId)
    (method : String) (args : List (Value T.Class)) (m : Machine T) :
    (accept config frames receiver method args m).machine.sink = m.sink := by
  unfold accept
  split
  · exact enter_sink config frames receiver _ args m
  · rw [after_machine, dispatch_nothing_onlyObjects receiver method args m]

theorem begin_machine (frames : List Frame) (receiver : ObjectId) (m : Machine T)
    {statement : Statement} (plain : ∀ target method operands,
      statement ≠ .call target method operands) :
    (begin frames receiver m statement).machine = leaves (step nothing receiver statement) m := by
  rw [begin, after_machine, leaves_bind_pure]
  exact plain

theorem begin_sink (frames : List Frame) (receiver : ObjectId) (m : Machine T)
    {statement : Statement} (silent : ∀ value, statement ≠ .print value) :
    (begin frames receiver m statement).machine.sink = m.sink := by
  cases statement with
  | construct | assign =>
    rw [begin_machine _ _ _ (by simp), step_onlyObjects nothing receiver (by simp) silent]
    rfl
  | call target method operands =>
    rcases resolve_cases receiver target m.begun with ⟨callee, _, ran⟩ | ⟨e, ran⟩ <;>
      simp only [begin, ran] <;> rfl
  | print value => exact absurd rfl (silent value)

/-- Only a print adds to the output. -/
theorem prints_of_next {config : Config} {s t : Stage T} (steps : s.next config = some t)
    (more : s.output.size < t.output.size) : s.Prints := by
  have changed : t.machine.sink ≠ s.machine.sink := by
    intro same
    simp [output, same] at more
  cases moves_of_next steps with
  | accepts => exact absurd (accept_sink ..) changed
  | @begins receiver statement rest frames =>
    cases statement with
    | print value => exact ⟨receiver, value, rest, frames, _, rfl, rfl⟩
    | _ => exact absurd (begin_sink _ receiver _ (by simp)) changed
  | leaves => exact absurd rfl changed
  | unwinds => exact absurd rfl changed

/-- Where a print goes beyond the limit, what fits of it is printed and the print fails. -/
theorem next_within_of_beyond {config : Config} {s t : Stage T} (room : s.machine.sink.room = none)
    (steps : s.next config = some t) {limit : Nat} (keeps : s.output.size ≤ limit)
    (beyond : limit < t.output.size) :
    ∃ frames, (s.within limit).next config = some ⟨frames, .failed (.output Sink.full),
      { s.machine.begun with sink := ⟨some 0, t.output.take limit⟩ }⟩ := by
  obtain ⟨frames, control, m⟩ := s
  obtain ⟨receiver, value, rest, frames, answer, rfl, rfl⟩ :=
    prints_of_next steps (Nat.lt_of_le_of_lt keeps beyond)
  refine ⟨⟨receiver, rest⟩ :: frames, ?_⟩
  cases steps
  have prints (n : Machine T) : step nothing receiver (.print value) n =
      printLine (evaluate (n.heap.lookup receiver) value) n.begun := rfl
  have whole : (begin (⟨receiver, rest⟩ :: frames) receiver m (.print value)).output =
      m.sink.written ++ m.begun.lineOf (evaluate (m.heap.lookup receiver) value) := by
    rw [output, begin_machine _ _ _ (by simp), leaves_congr (prints m),
      leaves_of_ok (printLine_unlimited (m := m.begun) room _)]
    rfl
  rw [whole] at beyond ⊢
  have cut : step nothing receiver (.print value) (m.within limit) =
      .error (.output Sink.full) { m.begun with
        sink := ⟨some 0, (m.sink.written ++
          m.begun.lineOf (evaluate (m.heap.lookup receiver) value)).take limit⟩ } :=
    (prints _).trans (printLine_within_of_beyond (m := m.begun) keeps beyond)
  simp only [next, within, begin, bind_apply, cut]
  rfl

/-- An error leaves every frame, one after the other. -/
theorem reaches_unwound (config : Config) (frames : List Frame) (e : Error) (m : Machine T) :
    Reaches config ⟨frames, .failed e, m⟩
      ⟨[], .failed e, { m with depth := m.depth - frames.length }⟩ := by
  induction frames generalizing m with
  | nil => exact .refl
  | cons frame frames ih =>
    apply Reaches.step rfl
    have left := ih m.shallower
    simp only [shallower, Nat.sub_sub] at left
    rwa [Nat.add_comm] at left

theorem Reaches.eq_of_ends {config : Config} {s t : Stage T} (run : Reaches config s t)
    (ends : s.next config = none) : s = t := by
  rcases Relation.ReflTransGen.cases_head run with same | ⟨_, next, _⟩
  · exact same
  · rw [ends] at next
    cases next

theorem Reaches.unique {config : Config} {s t u : Stage T} (first : Reaches config s t)
    (second : Reaches config s u) (firstEnds : t.next config = none)
    (secondEnds : u.next config = none) : t = u := by
  have functional : Relator.RightUnique fun s t : Stage T => s.next config = some t := by
    intro s t u next next'
    exact Option.some.inj (next.symm.trans next')
  rcases Relation.ReflTransGen.total_of_right_unique functional first second with run | run
  · exact Reaches.eq_of_ends run firstEnds
  · exact (Reaches.eq_of_ends run secondEnds).symm

/-- In a run from `s`, the print of the stage `p` is what first goes beyond the limit. -/
structure Exceeds (config : Config) (limit : Nat) (s p : Stage T) : Prop where
  reached : Reaches config s p
  prints : p.Prints
  keeps : p.output.size ≤ limit
  beyond : ∃ q, p.next config = some q ∧ limit < q.output.size

theorem after_ends (config : Config) (result : EStateM.Result Error (Machine T) (Value T.Class)) :
    (after [] result).next config = none := by
  cases result <;> rfl

theorem eq_error_of_after {result : EStateM.Result Error (Machine T) (Value T.Class)}
    {frames frames' : List Frame} {e : Error} {m : Machine T}
    (failed : after frames result = ⟨frames', .failed e, m⟩) : result = .error e m := by
  cases result with
  | ok value here => cases failed
  | error e here =>
    cases failed
    rfl

end Stage

namespace Machine

open Stage

theorem call_within_of_beyond (config : Config) {m : Machine T} (room : m.sink.room = none)
    {limit : Nat} (keeps : m.sink.written.size ≤ limit) (receiver : ObjectId) (method : String)
    (args : List (Value T.Class))
    (beyond : limit < (leaves (call config receiver method args) m).sink.written.size) :
    ∃ p, Exceeds config limit (calls receiver method args m) p ∧
      call config receiver method args (m.within limit) = .error (.output Sink.full)
        { heap := p.machine.heap
          sink := ⟨some 0,
            (leaves (call config receiver method args) m).sink.written.take limit⟩
          depth := m.depth
          executed := p.machine.executed + 1 } := by
  rw [← after_machine []] at beyond
  obtain ⟨p, q, toP, next, fromQ, below, above⟩ :=
    exists_crossing (reaches_call config [] receiver method args m) keeps beyond
  obtain ⟨_, roomP, withinP⟩ := reaches_within room toP
  have roomQ := (next_continues roomP next).2
  have sameFront := (reaches_within roomQ fromQ).1.take_eq (Nat.le_of_lt above)
  rw [after_machine] at sameFront
  obtain ⟨frames, stopped⟩ := next_within_of_beyond roomP next below above
  -- The limited call follows the other one up to the print, and then only leaves its frames.
  have limited := ((withinP limit below).tail stopped).trans (reaches_unwound config frames _ _)
  have ended := reaches_call config [] receiver method args (m.within limit)
  have failed := eq_error_of_after (ended.unique limited (after_ends config _) rfl)
  refine ⟨p, ⟨toP, prints_of_next next (Nat.lt_of_le_of_lt below above), below, q, next, above⟩, ?_⟩
  have depth := call_keepsDepth config receiver method args (m.within limit)
  unfold leaves at depth
  rw [failed] at depth
  rw [failed, sameFront]
  simp only at depth
  simp only [depth]
  rfl

end Machine

end ContractScript
