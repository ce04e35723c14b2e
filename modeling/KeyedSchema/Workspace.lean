import KeyedSchema.Bus
import KeyedSchema.Schema.Op

/-!
# Workspace — a schema with its listeners

A workspace joins a schema to the bus that its events go out on. Whatever an edit publishes is
delivered before anything else happens in the workspace, each event once and in order.
-/

namespace KeyedSchema

/-- A schema, a bus, and how many of the published events the bus has delivered. -/
structure Workspace where
  schema : Schema := {}
  bus : Bus := {}
  delivered : Nat := 0
  deriving Repr

namespace Workspace

variable {α : Type}

def ofConfig (config : Config) : Workspace := { schema := Schema.ofConfig config }

/-- Deliver the events that were published since the last delivery. -/
def deliver (w : Workspace) : Workspace :=
  { w with
    bus := (w.schema.published.drop w.delivered).foldl Bus.publish w.bus
    delivered := w.schema.published.length }

/-- Carry out an edit and deliver what it published. -/
def perform (x : Edit α) (w : Workspace) : Except EditError α × Workspace :=
  let (outcome, schema) := x.perform w.schema
  (outcome, { w with schema }.deliver)

/-- Take in a new listener; the answer is its number. -/
def addListener (l : Listener) (w : Workspace) : Nat × Workspace :=
  (w.bus.listeners.length, { w with bus := w.bus.addListener l })

/-- Put a listener on a topic. -/
def subscribe (topic : Topic) (listener : Nat) (w : Workspace) : SubscriptionId × Workspace :=
  let (id, bus) := w.bus.subscribe topic listener
  (id, { w with bus })

/-- Take a subscription away; the answer says whether it was there. -/
def unsubscribe (id : SubscriptionId) (w : Workspace) : Bool × Workspace :=
  let (found, bus) := w.bus.unsubscribe id
  (found, { w with bus })

end Workspace

end KeyedSchema
