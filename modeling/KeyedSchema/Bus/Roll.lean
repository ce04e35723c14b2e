import KeyedSchema.Bus

/-!
# Roll — who is subscribed, kept in one plain list

A client takes in listeners, subscribes them, takes subscriptions away and publishes events, call by
call. `Bus.run` carries the calls out on a bus with its index; a `Roll` keeps the same calls in one
list, in the order in which the subscriptions were made. Every entry of the list has the events that
its topic has covered since the subscription was made.
-/

namespace KeyedSchema

namespace Bus

/-- One call of a client. -/
inductive Call
  | addListener (l : Listener)
  | subscribe (topic : Topic) (listener : Nat)
  | unsubscribe (id : SubscriptionId)
  | publish (e : Event)
  deriving DecidableEq, Repr

/-- The bus after a call. -/
def after (b : Bus) : Call → Bus
  | .addListener l => b.addListener l
  | .subscribe topic listener => (b.subscribe topic listener).2
  | .unsubscribe id => (b.unsubscribe id).2
  | .publish e => b.publish e

/-- The bus after a series of calls. -/
def run (b : Bus) (calls : List Call) : Bus := calls.foldl after b

end Bus

/-- A subscription on the roll. -/
structure Member where
  id : SubscriptionId
  topic : Topic
  listener : Nat
  /-- The events that were published since the subscription was made, as far as its topic covers
  them. -/
  covered : List Event := []
  deriving DecidableEq, Repr

namespace Member

/-- The member once an event was published. -/
def keep (e : Event) (m : Member) : Member :=
  if m.topic.covers e then { m with covered := m.covered ++ [e] } else m

/-- The member as a bus has it. -/
def subscription (m : Member) : Subscription := ⟨m.topic, m.listener, m.covered.length⟩

end Member

/-- The subscriptions in the order in which they were made. -/
structure Roll where
  members : List Member := []
  last : Nat := 0
  deriving DecidableEq, Repr

namespace Roll

/-- The roll after a call. -/
def after (roll : Roll) : Bus.Call → Roll
  | .addListener _ => roll
  | .subscribe topic listener =>
      { members := roll.members ++ [{ id := ⟨roll.last + 1⟩, topic, listener }], last := roll.last + 1 }
  | .unsubscribe id => { roll with members := roll.members.filter fun m => m.id ≠ id }
  | .publish e => { roll with members := roll.members.map (Member.keep e) }

/-- The roll after a series of calls. -/
def run (roll : Roll) (calls : List Bus.Call) : Roll := calls.foldl after roll

/-- The members that an event is for. -/
def addressees (roll : Roll) (e : Event) : List Member :=
  roll.members.filter fun m => m.topic.covers e

/-- The members that listen to one object. -/
def listeningTo (roll : Roll) (ref : ObjectRef) : List Member :=
  roll.members.filter fun m => m.topic = .object ref

end Roll

namespace Bus

/-- Hand an event to a subscription: its listener hears it, and the delivery is counted. -/
def hand (e : Event) (b : Bus) (m : Member) : Bus :=
  { b.hear m.listener e with
    subscriptions := b.subscriptions.modify m.id fun s => { s with delivered := s.delivered + 1 } }

/-- The mark that a listener writes its events on the tape with. -/
def mark? (b : Bus) (listener : Nat) : Option Nat :=
  match b.listeners[listener]? with
  | some (.tape mark) => some mark
  | _ => none

end Bus

end KeyedSchema
