import KeyedSchema.Schema.Run
import KeyedSchema.Workspace

/-!
# Session — what a client does to a workspace, act by act

A client moves a schema as in `Schema.Run` and, in between, takes in listeners, subscribes them and
takes subscriptions away. The session begins with a listener that keeps every event it hears, and
with a subscription of that listener on everything.
-/

namespace KeyedSchema

/-- One act of a client. -/
inductive Act
  | move (move : Move)
  | addListener (l : Listener)
  | subscribe (topic : Topic) (listener : Nat)
  | unsubscribe (id : SubscriptionId)
  deriving DecidableEq, Repr

namespace Act

/-- The move that an act is. -/
def move? : Act → Option Move
  | move m => some m
  | _ => none

/-- Whether an act leaves the first listener with its one subscription. -/
def sparesFirst : Act → Bool
  | subscribe _ listener => listener ≠ 0
  | unsubscribe id => id ≠ ⟨1⟩
  | _ => true

end Act

/-- A workspace with the scopes that are open on its schema, innermost first. -/
structure Session where
  workspace : Workspace
  scopes : List OpenScope := []
  deriving Repr

namespace Session

/-- A session on a fresh schema, with one listener that hears everything. -/
def start (config : Config) : Session :=
  let listening := ((Workspace.ofConfig config).addListener (.log [])).2
  { workspace := (listening.subscribe .everything 0).2 }

/-- A session on a fresh schema, with a listener of any kind that hears everything. -/
def startWith (config : Config) (l : Listener) : Session :=
  let listening := ((Workspace.ofConfig config).addListener l).2
  { workspace := (listening.subscribe .everything 0).2 }

theorem start_eq (config : Config) : start config = startWith config (.log []) := rfl

def schema (s : Session) : Schema := s.workspace.schema

/-- What the first listener has heard, in the order of delivery. -/
def heard (s : Session) : List Event :=
  match s.workspace.bus.listeners.head? with
  | some (.log events) => events
  | _ => []

/-- The session after a move. What the move publishes is delivered before anything else. -/
def afterMove (s : Session) : Move → Session
  | .edit op => { s with workspace := (s.workspace.perform op.edit).2 }
  | .enter scope =>
      match s.workspace.perform (Edit.enter scope) with
      | (.ok opened, w) => ⟨w, opened :: s.scopes⟩
      | (.error _, w) => { s with workspace := w }
  | .leave =>
      match s.scopes with
      | [] => s
      | opened :: outer => ⟨(s.workspace.perform (Edit.leave opened)).2, outer⟩

/-- The session after an act. -/
def after (s : Session) : Act → Session
  | .move m => s.afterMove m
  | .addListener l => { s with workspace := (s.workspace.addListener l).2 }
  | .subscribe topic listener => { s with workspace := (s.workspace.subscribe topic listener).2 }
  | .unsubscribe id => { s with workspace := (s.workspace.unsubscribe id).2 }

/-- The session after a series of acts. -/
def run (s : Session) (acts : List Act) : Session := acts.foldl after s

@[simp] theorem run_nil (s : Session) : s.run [] = s := rfl

@[simp] theorem run_cons (s : Session) (act : Act) (acts : List Act) :
    s.run (act :: acts) = (s.after act).run acts := rfl

/-! ## Sessions and runs -/

/-- A session without its listeners. -/
def moment (s : Session) : Moment := ⟨s.schema, s.scopes⟩

theorem moment_afterMove (s : Session) (move : Move) :
    (s.afterMove move).moment = s.moment.after move := by
  cases move with
  | edit op => rfl
  | enter scope =>
      unfold afterMove Moment.after moment schema Workspace.perform
      dsimp only
      rcases (Edit.enter scope).perform s.workspace.schema with ⟨e | opened, s'⟩ <;> rfl
  | leave =>
      obtain ⟨w, scopes⟩ := s
      cases scopes <;> rfl

/-- To the schema it matters only which moves are made. -/
theorem moment_run (s : Session) (acts : List Act) :
    (s.run acts).moment = s.moment.run (acts.filterMap Act.move?) := by
  induction acts generalizing s with
  | nil => rfl
  | cons act acts ih =>
      rw [run_cons, ih]
      cases act with
      | move m => exact congrArg (Moment.run · _) (moment_afterMove s m)
      | addListener | subscribe | unsubscribe => rfl

end Session

end KeyedSchema
