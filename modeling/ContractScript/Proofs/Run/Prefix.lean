import ContractScript.Proofs.Machine.Truncation
import ContractScript.Proofs.Run.Fields
import ContractScript.Proofs.Run.Noninterference
import ContractScript.Proofs.Statement.Lenient

/-!
Calls that fail. A statement on the entry instance fails before it writes anything, if host objects
that refuse something stay as they were and the output takes everything. Main statement: a call that
fails leaves what a call leaves whose body has only the statements before the failure, and that call
returns.
-/

namespace ContractScript

open ContractScript.Action

variable {T : Toolkit}

theorem Object.callHost_refused (atomic : T.Atomic) {o : Object T} {render : Value T.Class → String}
    {method : String} {args : List (Value T.Class)} {e : Error}
    (refused : (o.callHost render method args).1 = .error e) :
    (o.callHost render method args).2 = o := by
  cases o with
  | interpreted contract fields => rfl
  | hosted handle written =>
    simp only [callHost] at refused ⊢
    split at refused
    · simp only [atomic.set (Except.map_eq_error_iff.mp refused)]
    · simp only [atomic.invoke refused]
    · rfl

namespace Machine

open Heap (Tame)

variable {registry : Registry T} {contract : Contract} {spaces : List (Object T)}
  {m after : Machine T} {statement : Statement} {statements : List Statement} {e : Error}

theorem callHost_refused (atomic : T.Atomic) {id : ObjectId} {method : String}
    {args : List (Value T.Class)} (failed : callHost id method args m = .error e after) :
    after = m := by
  have refused : ((m.heap.lookup id).callHost (m.heap.renderExcept id) method args).1 =
      .error e := by
    unfold callHost update at failed
    simp only at failed
    split at failed
    · cases failed
    · next stopped =>
      cases failed
      exact stopped
  have same := leaves_of_error failed
  rw [callHost_onlyObjects] at same
  unfold callHost at same
  rw [leaves_update_heap, Object.callHost_refused atomic refused, Heap.put_lookup] at same
  exact same.symm

/-- A statement that fails has no effect. -/
theorem Effect.error_kept (atomic : T.Atomic) (room : m.sink.room = none)
    (effect : Effect registry contract spaces m (.error e after) statement) : after = m := by
  cases effect with
  | refused _ stays =>
    cases stays
    rfl
  | constructs _ _ _ _ stores => cases stores
  | assigns _ stores => cases stores
  | prints writes => cases writes.trans (printLine_unlimited room _)
  | asks _ _ _ _ _ answers =>
    rcases bind_eq_error answers.symm with refused | ⟨_, _, _, impossible⟩
    · exact callHost_refused atomic refused
    · cases impossible

theorem FailsAt.kept (atomic : T.Atomic) (tame : Tame registry contract spaces m.heap)
    (room : m.sink.room = none) {config : Config} {frames k : Nat} {here last : Machine T}
    (fails : FailsAt (executeWithin config frames) 0 statements m k e here last) :
    last = here.begun := by
  have endless : here.sink.room = none := by
    have executes := Fits.compositional.executeWithin (T := T) .nested config frames
    have fits := Fits.compositional.steps _ (executeWithin config frames) executes 0
      (statements.take k)
    exact leaves_of_ok fails.ran ▸ fits.unlimited m room
  obtain ⟨statement, _, failed⟩ := fails.failed
  have effect := step_effect (fails.tame tame) (executeWithin config frames) statement
  rw [failed] at effect
  exact effect.error_kept atomic endless

/-- A call of a method on a fresh instance, its imports bound: with room for the method and a body
that reads, it comes to the statements. -/
theorem call_fresh {config : Config} {imports : List (String × String)} {name : String}
    {method : Method} (offers : contract.methods.get? name = some method)
    (reads : method.compile config.mode = .ok statements) (room : 0 < config.maxCallDepth)
    {sink : Sink} {ready : Machine T}
    (bound : bindImports registry 0 imports ((start sink).instantiate contract) = .ok () ready)
    {args : List (Value T.Class)} (plain : ∀ value ∈ args, value.Plain ready.heap.size) :
    ∃ inside, bindParams 0 method.params args ready = .ok () inside ∧
      Tame registry contract (registry.spaces imports) inside.deeper.heap ∧
      inside.sink = sink ∧
      inside.executed = 0 ∧
      call config 0 name args ready =
        (nested (steps (executeWithin config (config.maxCallDepth - 1)) 0 statements) >>=
          fun _ => pure .null) inside := by
  obtain ⟨_, again, kept⟩ := bindImports_tame (start_tame registry contract sink) rfl imports
  cases bound.symm.trans again
  have tame : Tame registry contract (registry.spaces imports) ready.heap := by simpa using kept
  have linked := bindImports_onlyObjects registry 0 imports ((start sink).instantiate contract)
  rw [leaves_of_ok bound] at linked
  have depth : ready.depth = 0 := congrArg depth linked
  have called := call_entry tame config offers args
  rw [depth, Nat.sub_zero, bind_apply] at called
  rcases executeWithin_cases tame config config.maxCallDepth method plain with ⟨limit, _⟩ |
    ⟨e, refused, _⟩ | ⟨left, statements', inside, frames, again, passed, running, executed⟩
  · exact absurd limit (Nat.ne_of_gt room)
  · cases reads.symm.trans refused
  · cases reads.symm.trans again
    have only := bindParams_onlyObjects 0 method.params args ready
    rw [leaves_of_ok passed] at only
    obtain rfl : left = config.maxCallDepth - 1 := by omega
    refine ⟨inside, passed, running, ?_, ?_, ?_⟩
    · exact (congrArg Machine.sink only).trans (congrArg Machine.sink linked)
    · exact (congrArg Machine.executed only).trans (congrArg Machine.executed linked)
    · rw [called, executed, bind_apply]

end Machine

/-- The contract with another body for one of its methods. -/
def Contract.withBody (contract : Contract) (name : String) (method : Method) (body : List Token) :
    Contract :=
  { contract with methods := contract.methods.insert name { method with body } }

namespace Machine

open Heap (Tame)

variable {contract : Contract} {statements front : List Statement}

/-- What statements at the front of a body do on one fresh instance they do on another, as the whole
body of the method. -/
theorem call_front {config : Config} {registry : Registry T} {imports : List (String × String)}
    {sink : Sink} {ready inside here : Machine T} {method : Method} {args : List (Value T.Class)}
    (bound : bindImports registry 0 imports ((start sink).instantiate contract) = .ok () ready)
    (passed : bindParams 0 method.params args ready = .ok () inside)
    (tame : Tame registry contract (registry.spaces imports) inside.deeper.heap)
    (ran : steps (executeWithin config (config.maxCallDepth - 1)) 0 front inside.deeper =
      .ok () here)
    (room : 0 < config.maxCallDepth) (plain : ∀ value ∈ args, value.Plain ready.heap.size)
    (name : String) {body : List Token}
    (reads : Statement.compile config.mode method.name body = .ok front) :
    ∃ opened shorter,
      bindImports registry 0 imports
        ((start sink).instantiate (contract.withBody name method body)) = .ok () opened ∧
      call config 0 name args opened = .ok .null shorter ∧
      Machine.Alike { here with depth := here.depth - 1 } shorter := by
  -- The two instances differ in one body, which no object shows and no call on them looks up.
  have born := instantiate_alike (T := T) (c := contract) (d := contract.withBody name method body)
    rfl rfl sink
  obtain ⟨opened, linked, like⟩ :=
    (bindImports_respects registry 0 imports _ _ born).exists_ok bound
  have offers : (contract.withBody name method body).methods.get? name =
      some { method with body } := Table.get?_insert_self ..
  obtain ⟨entered, passedToo, _, _, _, called⟩ :=
    call_fresh offers reads room linked (like.size ▸ plain)
  obtain ⟨_, again, alike⟩ := (bindParams_respects 0 method.params args _ _ like).exists_ok passed
  cases passedToo.symm.trans again
  have deeper : inside.deeper.Alike entered.deeper := alike.withDepth (· + 1)
  obtain ⟨there, ranToo, ended⟩ := (steps_sameEnd tame deeper _ front).exists_ok ran
  have left : nested (steps (executeWithin config (config.maxCallDepth - 1)) 0 front) entered =
      .ok () { there with depth := there.depth - 1 } := by
    change steps _ 0 _ { entered with depth := entered.depth + 1 } = _ at ranToo
    simp only [nested, ranToo]
  refine ⟨opened, _, linked, ?_, ended.withDepth (· - 1)⟩
  rw [called, bind_apply, left]
  rfl

/-- A call on a fresh instance that fails at a statement of the body leaves what the statements
before it have done, the failure being counted. An instance whose method has only these in its body
ends up alike, with the same output, fields and host objects, and there the call returns. Arguments
are plain: none of them refers to an instance, so no statement calls a method of one. -/
theorem failed_call_is_prefix (config : Config) (registry : Registry Grey.toolkit)
    (imports : List (String × String)) {name : String} {method : Method}
    (offers : contract.methods.get? name = some method)
    (reads : method.compile config.mode = .ok statements) (room : 0 < config.maxCallDepth)
    {sink : Sink} (endless : sink.room = none) {ready : Machine Grey.toolkit}
    (bound : bindImports registry 0 imports ((start sink).instantiate contract) = .ok () ready)
    {args : List (Value Grey.toolkit.Class)} (plain : ∀ value ∈ args, value.Plain ready.heap.size)
    {e : Error} {after : Machine Grey.toolkit}
    (failed : call config 0 name args ready = .error e after) :
    ∃ k inside here, bindParams 0 method.params args ready = .ok () inside ∧
      FailsAt (executeWithin config (config.maxCallDepth - 1)) 0 statements inside.deeper k e here
        here.begun ∧
      after.executed = k + 1 ∧
      (∃ body, Statement.compile config.mode method.name body = .ok (statements.take k)) ∧
      ∀ body, Statement.compile config.mode method.name body = .ok (statements.take k) →
        ∃ opened shorter,
          bindImports registry 0 imports
            ((start sink).instantiate (contract.withBody name method body)) = .ok () opened ∧
          call config 0 name args opened = .ok .null shorter ∧ after.Alike shorter.begun := by
  obtain ⟨inside, passed, tame, output, fresh, called⟩ := call_fresh offers reads room bound plain
  rw [called] at failed
  rcases bind_eq_error failed with stopped | ⟨_, _, _, impossible⟩
  · obtain ⟨last, inner, rfl⟩ := nested_eq_error stopped
    obtain ⟨k, here, fails⟩ := exists_failsAt inner
    have unlimited : inside.deeper.sink.room = none := (congrArg Sink.room output).trans endless
    -- the statement that has failed was counted, and that is all
    obtain rfl := fails.kept Grey.toolkit_atomic tame unlimited
    have counted : here.begun.executed = k + 1 := by
      rw [fails.executed tame, show inside.deeper.executed = 0 from fresh, Nat.zero_add]
    refine ⟨k, inside, here, passed, fails, counted, Statement.exists_compile_take reads k,
      fun body front => ?_⟩
    obtain ⟨opened, shorter, linked, returns, alike⟩ :=
      call_front bound passed tame fails.ran room plain name front
    exact ⟨opened, shorter, linked, returns, alike.begun⟩
  · cases impossible

/-- A method that sets up a window and then asks for a width that is no number. -/
def oversizing : Method :=
  ⟨"main", .exposed, ["x"], "Void",
    Token.scan "let w = ui.GRC(); w.width(5); print(x); w.width(\"wide\"); print(w);"⟩

def oversized : Contract := (Contract.named "App").addMethod oversizing

/-- An instance of the contract with its import bound. -/
def oversizedReady : Machine Grey.toolkit :=
  leaves (bindImports Grey.registry 0 [("ui", Grey.moduleName)])
    ((start .unlimited).instantiate oversized)

theorem failed_call_is_prefix_oversized :
    ∃ e after opened shorter,
      call {} 0 "main" [.text "title"] oversizedReady = .error e after ∧ after.executed = 4 ∧
      bindImports Grey.registry 0 [("ui", Grey.moduleName)] ((start .unlimited).instantiate
        (oversized.withBody "main" oversizing
          (Token.scan "let w = ui.GRC(); w.width(5); print(x);"))) = .ok () opened ∧
      call {} 0 "main" [.text "title"] opened = .ok .null shorter ∧ shorter.executed = 3 ∧
      after.Alike shorter.begun := by
  have offers : oversized.methods.get? "main" = some oversizing := Table.get?_insert_self ..
  have reads : oversizing.compile .strict = .ok [.construct "w" "ui" "GRC",
      .call "w" "width" [.integer 5], .print (.name "x"), .call "w" "width" [.text "wide"],
      .print (.name "w")] := by decide +kernel
  have front : Statement.compile .strict "main"
      (Token.scan "let w = ui.GRC(); w.width(5); print(x);") = .ok [.construct "w" "ui" "GRC",
        .call "w" "width" [.integer 5], .print (.name "x")] := by decide +kernel
  have bound : bindImports Grey.registry 0 [("ui", Grey.moduleName)]
      ((start .unlimited).instantiate oversized) = .ok () oversizedReady := rfl
  have plain : ∀ value ∈ ([.text "title"] : List (Value Grey.toolkit.Class)),
      value.Plain oversizedReady.heap.size := by
    rintro value (_ | ⟨_, ⟨⟩⟩)
    trivial
  have fourth : (match call {} 0 "main" [.text "title"] oversizedReady with
      | .ok .. => false
      | .error _ after => after.executed == 4) = true := by decide +kernel
  split at fourth
  · cases fourth
  · next e after failed =>
    obtain ⟨k, inside, here, _, _, counted, _, shorten⟩ := failed_call_is_prefix {} Grey.registry
      [("ui", Grey.moduleName)] offers reads (by decide) rfl bound plain failed
    obtain rfl : k = 3 := by simpa [counted] using fourth
    obtain ⟨opened, shorter, linked, returns, alike⟩ := shorten _ front
    have third : shorter.executed + 1 = 3 + 1 := alike.executed.symm.trans counted
    exact ⟨e, after, opened, shorter, failed, counted, linked, returns, by omega, alike⟩

end Machine

end ContractScript
