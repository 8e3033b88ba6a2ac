import ContractScript.Proofs.Machine.Agreement
import ContractScript.Proofs.Machine.Depth

/-!
The limit on nested calls. Two executions under different limits do the same until the lower limit
stops one of them, and from there on the other one can only print more. Main statement: raising the
limit changes no call that ended for another reason, and continues the output of any other call.
-/

namespace ContractScript

open ContractScript.Action

variable {T : Toolkit} {α β : Type}

namespace Error

/-- Whether a call was refused because too many methods were running. -/
def isCallDepth : Error → Bool
  | callDepth _ => true
  | _ => false

end Error

namespace Sink

/-- What the second sink was given begins with what the first sink was given. -/
def Continues (s t : Sink) : Prop :=
  ∃ more, t.written = s.written ++ more

theorem Continues.refl (s : Sink) : Continues s s :=
  ⟨#[], by simp⟩

theorem Continues.trans {s t u : Sink} (first : Continues s t) (second : Continues t u) :
    Continues s u := by
  obtain ⟨more, firstWritten⟩ := first
  obtain ⟨rest, secondWritten⟩ := second
  exact ⟨more ++ rest, by rw [secondWritten, firstWritten, Array.append_assoc]⟩

theorem continues_write (s : Sink) (bytes : Array UInt8) : Continues s (s.write bytes).2 := by
  unfold write
  split
  · exact ⟨bytes, rfl⟩
  · next room _ =>
    split
    · exact ⟨bytes, rfl⟩
    · exact ⟨bytes.take room, rfl⟩

end Sink

namespace Action

/-- The action takes back nothing that was printed. -/
def Grows (a : Action T α) : Prop :=
  ∀ m : Machine T, m.sink.Continues (leaves a m).sink

namespace Grows

/-- What follows an action continues its output. -/
theorem after (a : Action T α) {f : α → Action T β} (rest : ∀ x, Grows (f x)) (m : Machine T) :
    (leaves a m).sink.Continues (leaves (a >>= f) m).sink := by
  rw [leaves_bind]
  unfold leaves
  cases a m with
  | ok x here => exact rest x here
  | error e here => exact .refl _

theorem bind {a : Action T α} {f : α → Action T β} (first : Grows a) (rest : ∀ x, Grows (f x)) :
    Grows (a >>= f) :=
  fun m => (first m).trans (after a rest m)

theorem nested {a : Action T α} (inner : Grows a) : Grows (Machine.nested a) := by
  intro m
  rw [leaves_nested_sink]
  exact inner _

theorem compositional :
    Machine.Compositional fun {α} (a : Action T α) (_ : Action T α) => Grows a where
  pure _ := fun _ => .refl _
  throw _ := fun _ => .refl _
  bind := bind
  object _ := fun _ => .refl _
  allocate _ := fun _ => .refl _
  update id operation := by
    intro m
    rw [Machine.update_onlyObjects id operation m]
    exact .refl _
  printLine value := by
    intro m
    unfold leaves Machine.printLine
    have grown := m.sink.continues_write
      ((m.heap.render value).toUTF8.data ++ "\n".toUTF8.data)
    simp only
    cases wrote : m.sink.write ((m.heap.render value).toUTF8.data ++ "\n".toUTF8.data) with
    | mk whole sink =>
      rw [wrote] at grown
      cases whole <;> exact grown
  begin := fun _ => .refl _

end Grows

/-- The second action does the same as the first one, except where the first one is refused a call:
there it goes on. -/
structure Extends (a b : Action T α) : Prop where
  grows : Grows b
  agrees : AgreesUnless Error.isCallDepth a b
  continues : ∀ m, failsBy Error.isCallDepth a m = true →
    (leaves a m).sink.Continues (leaves b m).sink

namespace Extends

theorem refl {a : Action T α} (grows : Grows a) : Extends a a :=
  ⟨grows, .refl _ a, fun _ _ => .refl _⟩

theorem bind {a b : Action T α} {f g : α → Action T β} (first : Extends a b)
    (rest : ∀ x, Extends (f x) (g x)) : Extends (a >>= f) (b >>= g) := by
  refine ⟨first.grows.bind fun x => (rest x).grows,
    first.agrees.bind fun x => (rest x).agrees, ?_⟩
  intro m refused
  have goesOn := Grows.after b (fun x => (rest x).grows) m
  cases ran : a m with
  | ok x here =>
    have same : b m = .ok x here := by
      rw [first.agrees m (by simp [failsBy, ran]), ran]
    have refusedRest : failsBy Error.isCallDepth (f x) here = true := by
      simpa [failsBy, bind_apply, ran] using refused
    simp only [leaves_bind, ran, same]
    exact (rest x).continues here refusedRest
  | error e here =>
    have refusedFirst : failsBy Error.isCallDepth a m = true := by
      simpa [failsBy, bind_apply, ran] using refused
    have stopped : leaves (a >>= f) m = leaves a m := by
      rw [leaves_bind]
      simp only [leaves, ran]
    rw [stopped]
    exact (first.continues m refusedFirst).trans goesOn

theorem nested {a b : Action T α} (inner : Extends a b) :
    Extends (Machine.nested a) (Machine.nested b) := by
  refine ⟨inner.grows.nested, inner.agrees.nested, ?_⟩
  intro m refused
  rw [failsBy_nested] at refused
  rw [leaves_nested_sink, leaves_nested_sink]
  exact inner.continues _ refused

theorem compositional :
    Machine.Compositional fun {α} (a b : Action T α) => Extends a b :=
  .of_refl Grows.compositional refl bind

end Extends

end Action

namespace Machine

theorem executeWithin_grows (config : Config) (frames : Nat) (receiver : ObjectId)
    (method : Method) (args : List (Value T.Class)) :
    Grows (executeWithin config frames receiver method args) :=
  Grows.compositional.executeWithin .nested config frames receiver method args

/-- By induction on the smaller number of frames. Where no frame is left the smaller execution is
refused, and the other one may print. -/
theorem executeWithin_extends (config : Config) (limit : Nat) {frames more : Nat}
    (raised : frames ≤ more) (receiver : ObjectId) (method : Method)
    (args : List (Value T.Class)) :
    Extends (executeWithin config frames receiver method args)
      (executeWithin { config with maxCallDepth := limit } more receiver method args) := by
  induction frames generalizing more receiver method args with
  | zero =>
    refine ⟨executeWithin_grows _ more receiver method args, ?_, ?_⟩
    · intro m fine
      cases fine
    · intro m _
      exact executeWithin_grows _ more receiver method args m
  | succ frames ih =>
    obtain ⟨more, rfl⟩ : ∃ fewer, more = fewer + 1 := ⟨more - 1, by omega⟩
    unfold executeWithin
    simp only
    cases method.compile config.mode with
    | error e => exact .refl (Grows.compositional.throw e)
    | ok statements =>
      have binds := Grows.compositional.sequential.bindParams receiver method.params args
      apply (Extends.refl binds).bind
      intro _
      apply Extends.nested
      exact Extends.compositional.steps _ _ (ih (by omega)) receiver statements

theorem execute_extends (config : Config) {limit : Nat} (raised : config.maxCallDepth ≤ limit)
    (receiver : ObjectId) (method : Method) (args : List (Value T.Class)) :
    Extends (execute config receiver method args)
      (execute { config with maxCallDepth := limit } receiver method args) := by
  have within (m : Machine T) :=
    executeWithin_extends config limit (Nat.sub_le_sub_right raised m.depth) receiver method args
  exact ⟨fun m => (within m).grows m, fun m => (within m).agrees m,
    fun m => (within m).continues m⟩

/-- Under a raised limit a call ends as before, in the same machine, unless it was refused a nested
call. In that case it prints what it printed before and possibly more. -/
theorem call_extends_of_limit_le (config : Config) {limit : Nat}
    (raised : config.maxCallDepth ≤ limit) (m : Machine T) (receiver : ObjectId)
    (method : String) (args : List (Value T.Class)) :
    (failsBy Error.isCallDepth (call config receiver method args) m = false →
      call { config with maxCallDepth := limit } receiver method args m =
        call config receiver method args m) ∧
    (failsBy Error.isCallDepth (call config receiver method args) m = true →
      ∃ printed more,
        (leaves (call config receiver method args) m).sink.written =
          m.sink.written ++ printed ∧
        (leaves (call { config with maxCallDepth := limit } receiver method args) m).sink.written =
          m.sink.written ++ (printed ++ more)) := by
  have calls := Extends.compositional.sequential.dispatch _ _
    (execute_extends (T := T) config raised) receiver method args
  refine ⟨calls.agrees m, fun refused => ?_⟩
  have grown : m.sink.Continues (leaves (call config receiver method args) m).sink :=
    Grows.compositional.sequential.dispatch (execute config) (execute config)
      (fun receiver method args m => executeWithin_grows config _ receiver method args m)
      receiver method args m
  obtain ⟨printed, low⟩ := grown
  obtain ⟨more, high⟩ := calls.continues m refused
  refine ⟨printed, more, low, ?_⟩
  rw [← Array.append_assoc, ← low]
  exact high

/-- An instance whose method calls itself through the field `me`, after it has printed a line. -/
def descending : Machine Grey.toolkit where
  heap := Heap.empty.push (.interpreted
    (some ((Contract.named "App").addMethod
      ⟨"main", .exposed, [], "Void", Token.scan "print(\"down\"); me.main();"⟩))
    (Table.ofList [("me", .object 0)]))
  sink := .unlimited
  depth := 0
  executed := 0

theorem call_extends_of_limit_le_greeting :
    (2 ≤ 3 ∧ failsBy Error.isCallDepth (call { maxCallDepth := 2 } 0 "main" []) greeting = false ∧
      call { maxCallDepth := 3 } 0 "main" [] greeting =
        call { maxCallDepth := 2 } 0 "main" [] greeting) ∧
    failsBy Error.isCallDepth (call { maxCallDepth := 2 } 0 "main" []) descending = true ∧
    ∃ printed more,
      (leaves (call { maxCallDepth := 2 } 0 "main" []) descending).sink.written =
        descending.sink.written ++ printed ∧
      (leaves (call { maxCallDepth := 3 } 0 "main" []) descending).sink.written =
        descending.sink.written ++ (printed ++ more) := by
  have ends : failsBy Error.isCallDepth
      (call { maxCallDepth := 2 } 0 "main" []) greeting = false := by
    decide +kernel
  have refused : failsBy Error.isCallDepth
      (call { maxCallDepth := 2 } 0 "main" []) descending = true := by
    decide +kernel
  have raised : ({ maxCallDepth := 2 } : Config).maxCallDepth ≤ 3 := by decide
  exact ⟨⟨by decide, ends, (call_extends_of_limit_le _ raised greeting 0 "main" []).1 ends⟩,
    refused, (call_extends_of_limit_le _ raised descending 0 "main" []).2 refused⟩

end Machine

end ContractScript
