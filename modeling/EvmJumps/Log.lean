namespace EvmJumps

inductive Level where
  | warn
  | info
  | debug
  | trace
  deriving DecidableEq, Repr

/-- What the program tells of its work, with the values that belong to it by name. -/
structure Event where
  level : Level
  message : String
  fields : List (String × List Char) := []
  deriving DecidableEq, Repr

/-- What the environment makes of events: the text that the standard output gets for each, by its
number in the run. Filters, times and colours are the logger's own. -/
structure Logger where
  write : Nat → Event → String

namespace Logger

def off : Logger where
  write _ _ := ""

/-- Logging is off: no event shows on the standard output. -/
def Silent (l : Logger) : Prop :=
  ∀ n e, l.write n e = ""

def text (l : Logger) (events : List Event) : String :=
  String.join (events.mapIdx l.write)

theorem Silent.text_eq {l : Logger} (silent : l.Silent) (events : List Event) :
    l.text events = "" := by
  have blank : events.mapIdx l.write = List.replicate events.length "" :=
    List.mapIdx_eq_replicate_iff.mpr fun n _ => silent n _
  rw [text, blank]
  induction events.length with
  | zero => rfl
  | succ n ih => rw [List.replicate_succ, String.join_cons, ih, String.empty_append]

end Logger

end EvmJumps
