import ContractScript.Grey
import ContractScript.Proofs.Machine.Binding
import ContractScript.Proofs.Machine.Stage

/-!
The way into a method. A call is turned away for its receiver, for want of a method or of a member,
for the depth, or for a body that does not read, and each of these is looked at before anything is
written. Main statement: a call that is turned away leaves the machine as it was, and one on an
interpreted object that is not turned away comes to the statements of a method with all parameters
bound.
-/

namespace ContractScript.Machine

open ContractScript.Action

variable {T : Toolkit} {config : Config} {m : Machine T} {receiver : ObjectId} {method : String}
  {args : List (Value T.Class)}

/-- The call is turned away with the error. -/
inductive TurnedAway (config : Config) (m : Machine T) (receiver : ObjectId) (method : String)
    (args : List (Value T.Class)) : Error → Prop
  | space {fields} (found : m.heap.lookup receiver = .interpreted none fields) :
      TurnedAway config m receiver method args (.noContract method)
  | method {contract fields}
      (found : m.heap.lookup receiver = .interpreted (some contract) fields)
      (lacks : contract.methods.get? method = none) :
      TurnedAway config m receiver method args (.noMethod method contract.name)
  /-- There is no method of this name, and no property that the arguments could set. -/
  | member {handle written} (found : m.heap.lookup receiver = .hosted handle written)
      (no_method : T.member handle method ≠ some .method)
      (no_property : T.member handle method = some .property → args.length ≠ 1) :
      TurnedAway config m receiver method args (.noMember method (T.handleClass handle))
  | depth {body} (found : m.bodyOf receiver method = some body)
      (full : config.maxCallDepth ≤ m.depth) :
      TurnedAway config m receiver method args (.callDepth config.maxCallDepth)
  | body {body e} (found : m.bodyOf receiver method = some body)
      (room : m.depth < config.maxCallDepth) (unread : body.compile config.mode = .error e) :
      TurnedAway config m receiver method args e

theorem callHost_of_no_member {handle : T.Handle} {written : Table (Value T.Class)}
    (found : m.heap.lookup receiver = .hosted handle written)
    (no_method : T.member handle method ≠ some .method)
    (no_property : T.member handle method = some .property → args.length ≠ 1) :
    callHost receiver method args m = .error (.noMember method (T.handleClass handle)) m := by
  have refused (render : Value T.Class → String) :
      Object.callHost render method args (.hosted handle written) =
        (.error (.noMember method (T.handleClass handle)), .hosted handle written) := by
    simp only [Object.callHost]
    split
    · next value property => exact absurd rfl (no_property property)
    · next declared => exact absurd declared no_method
    · rfl
  simp only [callHost, update, found, refused]
  rw [← found, m.heap.put_lookup]

theorem execute_of_body (room : m.depth < config.maxCallDepth) (body : Method) :
    execute config receiver body args m = enter config receiver body args m := by
  rw [execute_eq, if_neg (Nat.not_le_of_lt room)]

theorem TurnedAway.call_eq {e : Error} (away : TurnedAway config m receiver method args e) :
    call config receiver method args m = .error e m := by
  cases away with
  | space found => simp only [call, dispatch, bind_apply, object_apply, found]; rfl
  | method found lacks => simp only [call, dispatch, bind_apply, object_apply, found, lacks]; rfl
  | member found no_method no_property =>
    simp only [call, dispatch, bind_apply, object_apply, found]
    exact callHost_of_no_member found no_method no_property
  | depth found full =>
    rw [call, dispatch_of_body (execute config) found, bind_apply, execute_eq, if_pos full]
  | body found room unread =>
    rw [call, dispatch_of_body (execute config) found, bind_apply, execute_of_body room, enter,
      unread]
    rfl

/-- Of the things that may turn a call on an interpreted object away there are no others. -/
theorem exists_body_of_not_turnedAway {contract : Option Contract} {fields : Table (Value T.Class)}
    (found : m.heap.lookup receiver = .interpreted contract fields)
    (passes : ∀ e, ¬ TurnedAway config m receiver method args e) :
    ∃ body statements, m.bodyOf receiver method = some body ∧ m.depth < config.maxCallDepth ∧
      body.compile config.mode = .ok statements := by
  cases offered : m.bodyOf receiver method with
  | none =>
    cases contract with
    | none => exact absurd (.space found) (passes _)
    | some contract =>
      have lacks : contract.methods.get? method = none := by
        simpa [bodyOf, found, Object.contract?] using offered
      exact absurd (.method found lacks) (passes _)
  | some body =>
    have room : m.depth < config.maxCallDepth :=
      Nat.lt_of_not_le fun full => passes _ (.depth offered full)
    cases reads : body.compile config.mode with
    | error e => exact absurd (.body offered room reads) (passes e)
    | ok statements => exact ⟨body, statements, rfl, room, reads⟩

/-- In the machine `inside` the parameters are bound to the arguments, and nothing else is changed:
a name holds what its last place in the list is given, and null if nothing is given there. -/
structure Binds (receiver : ObjectId) (params : List String) (args : List (Value T.Class))
    (m inside : Machine T) : Prop where
  last : ∀ front name back, params = front ++ name :: back → name ∉ back →
    (inside.heap.lookup receiver).fields.get? name = some (args.getD front.length .null)
  others : ∀ name ∉ params,
    (inside.heap.lookup receiver).fields.get? name = (m.heap.lookup receiver).fields.get? name
  contract : (inside.heap.lookup receiver).contract? = (m.heap.lookup receiver).contract?
  size : inside.heap.size = m.heap.size
  objects : ∀ id ≠ receiver, inside.heap.lookup id = m.heap.lookup id
  only_objects : inside = { m with heap := inside.heap }

/-- Interpreted objects take every list of parameters. -/
theorem exists_binds {contract : Option Contract} {fields : Table (Value T.Class)}
    (live : receiver < m.heap.size)
    (found : m.heap.lookup receiver = .interpreted contract fields) (params : List String)
    (args : List (Value T.Class)) :
    ∃ inside, bindParams receiver params args m = .ok () inside ∧
      Binds receiver params args m inside := by
  refine ⟨_, bindParams_apply live found params args, ?_⟩
  have here := (m.heap.lookup_put receiver receiver (.interpreted contract
    (fields.insertAll (bindings params args))) live).trans (if_pos rfl)
  refine ⟨?_, ?_, ?_, Heap.size_put .., ?_, rfl⟩
  · rintro front name back rfl last
    rw [here]
    exact get?_insertAll_bindings_of_last last front args fields
  · intro name absent
    rw [here, found]
    exact get?_insertAll_bindings_of_not_mem absent args fields
  · rw [here, found]
    rfl
  · intro id other
    rw [Heap.lookup_put _ _ _ _ live, if_neg other]

theorem execute_take (config : Config) (receiver : ObjectId) (body : Method)
    (args : List (Value T.Class)) (m : Machine T) :
    execute config receiver body (args.take body.params.length) m =
      execute config receiver body args m := by
  simp only [execute_eq, enter, bindParams_take]

/-- A call that is turned away changes nothing at all. One on an interpreted object that is not
turned away executes a method of its contract; and a method with room and with a body that reads,
executed on any interpreted object, comes to its statements with the parameters bound, where
arguments without a parameter are of no account. -/
theorem call_turnedAway_or_bound (config : Config) (m : Machine T) (receiver : ObjectId)
    (args : List (Value T.Class)) :
    (∀ method e, TurnedAway config m receiver method args e →
      call config receiver method args m = .error e m) ∧
    ∀ contract fields, receiver < m.heap.size →
      m.heap.lookup receiver = .interpreted contract fields →
      (∀ method, (∀ e, ¬ TurnedAway config m receiver method args e) →
        ∃ body statements, m.bodyOf receiver method = some body ∧
          m.depth < config.maxCallDepth ∧ body.compile config.mode = .ok statements ∧
          call config receiver method args m =
            (execute config receiver body args >>= fun _ => pure .null) m) ∧
      ∀ (body : Method) statements, m.depth < config.maxCallDepth →
        body.compile config.mode = .ok statements →
        ∃ inside, bindParams receiver body.params args m = .ok () inside ∧
          Binds receiver body.params args m inside ∧
          execute config receiver body args m =
            nested (steps (execute config) receiver statements) inside ∧
          execute config receiver body (args.take body.params.length) m =
            execute config receiver body args m := by
  refine ⟨fun method e away => away.call_eq, fun contract fields live found => ⟨?_, ?_⟩⟩
  · intro method passes
    obtain ⟨body, statements, offered, room, reads⟩ := exists_body_of_not_turnedAway found passes
    exact ⟨body, statements, offered, room, reads, dispatch_of_body (execute config) offered args⟩
  · intro body statements room reads
    obtain ⟨inside, bound, binds⟩ := exists_binds live found body.params args
    refine ⟨inside, bound, binds, ?_, execute_take ..⟩
    rw [execute_of_body room, enter, reads]
    simp only [bind_apply, bound]

/-- A method with one parameter in two places. -/
def pairing : Method := ⟨"pair", .exposed, ["a", "b", "a"], "Void", Token.scan "print(a);"⟩

def unreadable : Method := ⟨"unreadable", .exposed, [], "Void", Token.scan "oops"⟩

def pairs : Contract := ((Contract.named "Pair").addMethod pairing).addMethod unreadable

/-- An instance, a namespace and a window, with one method running. -/
def doorway : Machine Grey.toolkit where
  heap := ((Heap.empty.push (.interpreted (some pairs)
    (.ofList [("b", .text "old"), ("c", .text "kept")]))).push (.ofNamespace ∅)).push
      (.ofHandle (.window {}))
  sink := .unlimited
  depth := 1
  executed := 0

theorem pairing_not_turnedAway (args : List (Value Grey.toolkit.Class)) (e : Error) :
    ¬ TurnedAway {} doorway 0 "pair" args e := by
  intro away
  cases away with
  | space found => cases found
  | method found lacks =>
    cases found
    cases lacks
  | member found => cases found
  | depth found full => exact absurd full (by decide)
  | body found room unread =>
    cases found
    have reads : (pairing.compile .strict).isOk = true := by decide +kernel
    rw [show pairing.compile .strict = _ from unread] at reads
    cases reads

theorem call_turnedAway_or_bound_doorway :
    call {} 1 "pair" [] doorway = .error (.noContract "pair") doorway ∧
    call {} 0 "gone" [] doorway = .error (.noMethod "gone" "Pair") doorway ∧
    call {} 2 "title" [] doorway = .error (.noMember "title" "GRC") doorway ∧
    call { maxCallDepth := 1 } 0 "pair" [] doorway = .error (.callDepth 1) doorway ∧
    call {} 0 "unreadable" [] doorway =
      .error (.unrecognized "unreadable" 0 "oops") doorway ∧
    ∃ statements inside,
      call {} 0 "pair" [.text "x", .object 0] doorway =
        (nested (steps (execute {}) 0 statements) >>= fun _ => pure .null) inside ∧
      (inside.heap.lookup 0).fields.get? "a" = some .null ∧
      (inside.heap.lookup 0).fields.get? "b" = some (.object 0) ∧
      (inside.heap.lookup 0).fields.get? "c" = some (.text "kept") := by
  have away := fun config receiver args method e =>
    (call_turnedAway_or_bound config doorway receiver args).1 method e
  have missing : TurnedAway {} doorway 0 "gone" [] (.noMethod "gone" pairs.name) :=
    .method rfl rfl
  have window : doorway.heap.lookup 2 = .hosted (.window {}) ∅ := rfl
  have unread : unreadable.compile .strict = .error (.unrecognized "unreadable" 0 "oops") := by
    decide +kernel
  refine ⟨away _ _ _ _ _ (.space rfl), away _ _ _ _ _ missing,
    away _ _ _ _ _ (.member window (by decide) (by decide)),
    away _ _ _ _ _ (.depth rfl (by decide)), away _ _ _ _ _ (.body rfl (by decide) unread), ?_⟩
  obtain ⟨entered, binds⟩ := (call_turnedAway_or_bound {} doorway 0
    [.text "x", .object 0]).2 _ _ (by decide) rfl
  obtain ⟨body, statements, offered, room, reads, called⟩ :=
    entered "pair" (pairing_not_turnedAway _)
  cases offered
  obtain ⟨inside, -, bound, executed, -⟩ := binds pairing statements room reads
  refine ⟨statements, inside, ?_, ?_, ?_, ?_⟩
  · rw [called, bind_apply, executed, bind_apply]
  · exact bound.last ["a", "b"] "a" [] rfl (by decide)
  · exact bound.last ["a"] "b" ["a"] rfl (by decide)
  · exact bound.others "c" (by decide)

end ContractScript.Machine
