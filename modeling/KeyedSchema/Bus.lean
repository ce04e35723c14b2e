import KeyedSchema.Listener
import KeyedSchema.Roster
import KeyedSchema.StableOrder

/-!
# Bus — who hears which event

A subscription joins a listener to a topic: everything, or one object. An event goes to the
subscriptions on everything and to those on its source, in ascending order of their numbers;
signals of compound edits have no source and go to the former only.

The bus keeps an index of the subscriptions by object, so that routing an event does not look at
the subscriptions on other objects. `route` is that indexed search, `audience` the plain one.
-/

namespace KeyedSchema

/-- A subscription of a bus. -/
structure SubscriptionId where
  val : Nat
  deriving DecidableEq, Repr

def SubscriptionId.label (s : SubscriptionId) : String := s!"subscription#{s.val}"

/-- What a subscription listens to. -/
inductive Topic
  | object (ref : ObjectRef)
  | everything
  deriving DecidableEq, Repr

/-- Whether a subscription on the topic hears an event. -/
def Topic.covers (t : Topic) (e : Event) : Bool :=
  match t with
  | .everything => true
  | .object ref => e.source? == some ref

/-- A listener, given by its number, on a topic. -/
structure Subscription where
  topic : Topic
  listener : Nat
  /-- How many events were delivered to this subscription. -/
  delivered : Nat := 0
  deriving DecidableEq, Repr

/-- Subscriptions, the index of those on single objects, and the listeners they share. -/
structure Bus where
  subscriptions : Roster SubscriptionId Subscription := .empty
  byObject : Roster ObjectRef (List SubscriptionId) := .empty
  lastSubscription : Nat := 0
  listeners : List Listener := []
  /-- What the tape listeners heard, each with its mark. -/
  tape : List (Nat × Event) := []
  deriving Repr

namespace Bus

/-! ## Listeners -/

/-- Take in a new listener; its number is the number of listeners before it. -/
def addListener (b : Bus) (l : Listener) : Bus := { b with listeners := b.listeners ++ [l] }

/-- Let one listener hear an event. -/
def hear (b : Bus) (listener : Nat) (e : Event) : Bus :=
  match b.listeners[listener]? with
  | some (.tape mark) => { b with tape := b.tape ++ [(mark, e)] }
  | some l => { b with listeners := b.listeners.set listener (l.hear e) }
  | none => b

/-! ## Subscriptions -/

/-- The subscriptions on one object, in the order in which they were made. -/
def subscriptionsFor (b : Bus) (ref : ObjectRef) : List SubscriptionId :=
  (b.byObject.get? ref).getD []

/-- Put a listener on a topic. -/
def subscribe (b : Bus) (topic : Topic) (listener : Nat) : SubscriptionId × Bus :=
  let id : SubscriptionId := ⟨b.lastSubscription + 1⟩
  let byObject :=
    match topic with
    | .object ref => b.byObject.insert ref (b.subscriptionsFor ref ++ [id])
    | .everything => b.byObject
  (id, { b with
    subscriptions := b.subscriptions.insert id { topic, listener }
    byObject
    lastSubscription := b.lastSubscription + 1 })

/-- Take a subscription away; the answer says whether it was there. -/
def unsubscribe (b : Bus) (id : SubscriptionId) : Bool × Bus :=
  match b.subscriptions.get? id with
  | none => (false, b)
  | some s =>
      let byObject :=
        match s.topic with
        | .object ref =>
            match (b.subscriptionsFor ref).filter fun other => other ≠ id with
            -- an object that nobody listens to any more is forgotten
            | [] => b.byObject.erase ref
            | rest => b.byObject.insert ref rest
        | .everything => b.byObject
      (true, { b with subscriptions := b.subscriptions.erase id, byObject })

/-! ## Routing and delivery -/

/-- The subscriptions an event goes to, found through the index. -/
def route (b : Bus) (e : Event) : List SubscriptionId :=
  let wide := b.subscriptions.keysWhere fun _ s => s.topic == .everything
  match e.source? with
  | none => wide
  | some ref => sortOn SubscriptionId.val (wide ++ b.subscriptionsFor ref)

/-- The subscriptions an event goes to, found by asking each of them. -/
def audience (b : Bus) (e : Event) : List SubscriptionId :=
  b.subscriptions.keysWhere fun _ s => s.topic.covers e

/-- Deliver an event to one subscription. -/
def deliver (b : Bus) (e : Event) (id : SubscriptionId) : Bus :=
  match b.subscriptions.get? id with
  | none => b
  | some s =>
      if s.topic.covers e then
        { b.hear s.listener e with
          subscriptions := b.subscriptions.modify id fun s => { s with delivered := s.delivered + 1 } }
      else b

/-- Deliver an event to everyone who listens to it. -/
def publish (b : Bus) (e : Event) : Bus := (b.route e).foldl (fun b id => b.deliver e id) b

end Bus

end KeyedSchema
