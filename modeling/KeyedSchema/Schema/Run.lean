import KeyedSchema.Schema.Op

/-!
# Run — what a client does to a schema, move by move

A client edits a schema, opens scopes and closes the innermost open one. A series of edits inside
a scope that stops early, because one of them is refused, is a run that closes the scope early; so
runs of moves cover every way of nesting scopes, and every moment in the middle of one.
-/

namespace KeyedSchema

/-- One move of a client. -/
inductive Move
  | edit (op : Op)
  | enter (scope : Scope)
  /-- Close the innermost open scope; without one nothing happens. -/
  | leave
  deriving DecidableEq, Repr

/-- A schema with the scopes that are open on it, innermost first. -/
structure Moment where
  schema : Schema := {}
  scopes : List OpenScope := []
  deriving DecidableEq, Repr

namespace Moment

/-- The moment before the first move. -/
def start (config : Config) : Moment := { schema := Schema.ofConfig config }

/-- The moment after a move. A scope that is refused is not open. -/
def after (m : Moment) : Move → Moment
  | .edit op => { m with schema := (op.perform m.schema).2 }
  | .enter scope =>
      match (Edit.enter scope).perform m.schema with
      | (.ok opened, s) => ⟨s, opened :: m.scopes⟩
      -- a scope that does not open is not closed either
      | (.error _, s) => { m with schema := s }
  | .leave =>
      match m.scopes with
      | [] => m
      | opened :: outer => ⟨((Edit.leave opened).perform m.schema).2, outer⟩

/-- The moment after a series of moves. -/
def run (m : Moment) (moves : List Move) : Moment := moves.foldl after m

@[simp] theorem run_nil (m : Moment) : m.run [] = m := rfl

@[simp] theorem run_cons (m : Moment) (move : Move) (moves : List Move) :
    m.run (move :: moves) = (m.after move).run moves := rfl

/-- A run in two parts ends where the second part ends that starts where the first one ends. -/
theorem run_append (m : Moment) (xs ys : List Move) : m.run (xs ++ ys) = (m.run xs).run ys :=
  List.foldl_append

end Moment

/-- Whether some run of moves leads from a schema without objects to the given one. -/
def Schema.Reachable (s : Schema) : Prop :=
  ∃ config moves, ((Moment.start config).run moves).schema = s

end KeyedSchema
