/-!
Events for the log. An event is raised whether anyone listens or not; which events come to be seen
is for a filter to say, and how they are then written for whoever keeps the log.
-/

namespace ContractScript

/-- How much an event matters, or how much a reader of the log wants to see. -/
inductive Level where
  | warn
  | info
  | debug
  | trace
deriving DecidableEq

namespace Level

/-- The place of a level, those that matter most first. -/
def rank : Level → Nat
  | warn => 0
  | info => 1
  | debug => 2
  | trace => 3

/-- How a level is named in the log, all names with the same width. -/
def label : Level → String
  | warn => " WARN"
  | info => " INFO"
  | debug => "DEBUG"
  | trace => "TRACE"

/-- The level that is asked for by saying so many times that more should be seen. -/
def ofVerbosity : Nat → Level
  | 0 => warn
  | 1 => info
  | 2 => debug
  | _ => trace

end Level

/-- What happened, with the values that belong to it under their names. -/
structure Event where
  level : Level
  message : String
  values : List (String × String)
deriving DecidableEq

namespace Event

/-- Whether an event is seen by those who want to see all up to a level. -/
def upTo (level : Level) (e : Event) : Bool := e.level.rank ≤ level.rank

/-- The line of an event in a log without colours. -/
def line (time : String) (e : Event) : String :=
  let values := e.values.map fun (name, value) => s!" {name}={value}"
  s!"{time} {e.level.label} {e.message}{String.join values}\n"

/-- The lines of those events that a filter lets through. How an event is written may depend on its
place among them, for its line tells the time. -/
def lines (admits : Event → Bool) (write : Nat → Event → String) (events : List Event) : String :=
  String.join ((events.filter admits).mapIdx write)

theorem lines_of_hidden {admits : Event → Bool} {events : List Event}
    (hidden : ∀ e ∈ events, admits e = false) (write : Nat → Event → String) :
    lines admits write events = "" := by
  have none_left : events.filter admits = [] :=
    List.filter_eq_nil_iff.mpr fun e among => by simp [hidden e among]
  rw [lines, none_left]
  rfl

end Event

end ContractScript
