import KeyedSchema.Event

/-!
# Listener — what observers make of events

A listener is a value that changes with every event it hears. There are five kinds:

- a **counter** counts the events of each kind;
- a **log** keeps every event in the order of delivery;
- a **tracker** follows the nesting of compound edits, as an undo manager does;
- a **silent** listener keeps nothing;
- a **tape** listener writes what it hears on the tape that all tape listeners share, so that the
  tape shows the order of delivery across listeners.
-/

namespace KeyedSchema

/-! ## Counting events -/

/-- How many events of each kind were heard. -/
structure EventCounts where
  inserted : Nat := 0
  removed : Nat := 0
  changed : Nat := 0
  structureChanged : Nat := 0
  compoundStarted : Nat := 0
  compoundEnded : Nat := 0
  deriving DecidableEq, Repr

namespace EventCounts

/-- All events that come from an object, the signals of compound edits left out. -/
def total (n : EventCounts) : Nat := n.inserted + n.removed + n.changed + n.structureChanged

def hear (n : EventCounts) : Event → EventCounts
  | .childInserted .. => { n with inserted := n.inserted + 1 }
  | .childRemoved .. => { n with removed := n.removed + 1 }
  | .propertyChanged .. => { n with changed := n.changed + 1 }
  | .structureChanged _ => { n with structureChanged := n.structureChanged + 1 }
  | .compoundEditStarted _ => { n with compoundStarted := n.compoundStarted + 1 }
  | .compoundEditEnded => { n with compoundEnded := n.compoundEnded + 1 }

end EventCounts

/-! ## Following compound edits -/

/-- How deep the open compound edits are nested, and how many outermost ones have ended. -/
structure EditTracker where
  depth : Nat := 0
  completed : Nat := 0
  lastDescription : Option String := none
  deriving DecidableEq, Repr

namespace EditTracker

/-- An end without an open edit is ignored. -/
def hear (t : EditTracker) : Event → EditTracker
  | .compoundEditStarted description =>
      { t with depth := t.depth + 1, lastDescription := some description }
  | .compoundEditEnded =>
      { t with
        depth := t.depth - 1
        completed := if t.depth = 1 then t.completed + 1 else t.completed }
  | _ => t

end EditTracker

/-! ## Listeners -/

/-- An observer and what it has made of the events so far. -/
inductive Listener
  | counter (counts : EventCounts)
  | log (events : List Event)
  | tracker (state : EditTracker)
  | silent
  | tape (mark : Nat)
  deriving DecidableEq, Repr

namespace Listener

/-- What an event leaves in the listener itself; tapes are kept by the bus. -/
def hear (l : Listener) (e : Event) : Listener :=
  match l with
  | counter counts => counter (counts.hear e)
  | log events => log (events ++ [e])
  | tracker state => tracker (state.hear e)
  | silent => silent
  | tape mark => tape mark

/-- A counter back at zero; other listeners have nothing to reset. -/
def reset : Listener → Listener
  | counter _ => counter {}
  | l => l

/-- The events in a log and the log emptied; other listeners have none. -/
def drain : Listener → List Event × Listener
  | log events => (events, log [])
  | l => ([], l)

end Listener

end KeyedSchema
