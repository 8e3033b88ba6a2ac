import ContractScript.Log
import ContractScript.Program.Reader

/-!
What reading a program raises for the log: an event for each declaration that comes to its end,
fields and the imports of a contract apart.
-/

namespace ContractScript

namespace Event

def parsedContract (c : Contract) : Event :=
  { level := .debug
    message := "parsed contract"
    values := [("contract", c.name), ("vars", toString c.fields.entries.length),
      ("methods", toString c.methods.entries.length)] }

def parsedMethod (c : Contract) (method : Method) : Event :=
  { level := .debug
    message := "parsed method"
    values := [("contract", c.name), ("method", method.name),
      ("body_tokens", toString method.body.length)] }

def ignoredImport (module localName : String) : Event :=
  { level := .debug
    message := "ignoring top-level import"
    values := [("module", module), ("alias", localName)] }

end Event

namespace Program

namespace Reader

/-- The event of a token that may end the contract `c`. -/
def contractEnd? (c : Contract) (t : Token) : Option Event :=
  if t.text = "\x7d" then some (.parsedContract c) else none

/-- What is raised when a token is taken. -/
def event? (r : Reader) (t : Token) : Option Event :=
  match r.place with
  | .importEnd none module localName => some (.ignoredImport module localName)
  | .member c | .fieldEnd c => contractEnd? c t
  | .fieldColon c access name =>
    contractEnd? (c.addField name ⟨access, FieldDecl.unknownType, none⟩) t
  | .body c s 0 reversed =>
    if t.text = "\x7d" then some (.parsedMethod c (s.toMethod reversed.reverse)) else none
  | _ => none

/-- What reading the tokens raises, up to the first token that is refused. -/
def eventsFrom (r : Reader) : List Token → List Event
  | [] => []
  | t :: rest =>
    match r.step t with
    | .ok next => (r.event? t).toList ++ next.eventsFrom rest
    | .error _ => []

theorem level_of_contractEnd? {c : Contract} {t : Token} {e : Event}
    (raised : contractEnd? c t = some e) : e.level = .debug := by
  obtain ⟨-, event⟩ := Option.ite_none_right_eq_some.mp raised
  exact Option.some.inj event ▸ rfl

theorem level_of_event? {r : Reader} {t : Token} {e : Event} (raised : r.event? t = some e) :
    e.level = .debug := by
  unfold event? at raised
  split at raised
  · exact Option.some.inj raised ▸ rfl
  · exact level_of_contractEnd? raised
  · exact level_of_contractEnd? raised
  · exact level_of_contractEnd? raised
  · obtain ⟨-, event⟩ := Option.ite_none_right_eq_some.mp raised
    exact Option.some.inj event ▸ rfl
  · cases raised

theorem level_of_mem_eventsFrom (r : Reader) (tokens : List Token) :
    ∀ e ∈ r.eventsFrom tokens, e.level = .debug := by
  induction tokens generalizing r with
  | nil => exact nofun
  | cons t rest ih =>
    intro e among
    cases taken : r.step t with
    | error wanted => simp [eventsFrom, taken] at among
    | ok next =>
      rw [eventsFrom, taken] at among
      rcases List.mem_append.mp among with now | later
      · exact level_of_event? (Option.mem_toList.mp now)
      · exact ih next e later

end Reader

def eventsOfSource (source : String) : List Event :=
  Reader.start.eventsFrom (Token.scan source)

theorem level_of_mem_eventsOfSource (source : String) :
    ∀ e ∈ eventsOfSource source, e.level = .debug :=
  Reader.level_of_mem_eventsFrom _ _

end Program

end ContractScript
