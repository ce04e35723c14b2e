import KeyedSchema.Schema.Basic

/-!
# Cycle — identifying relationships must not go in circles

The key of a child contains the key of its parent when the relationship is identifying, so live
identifying relationships that go in a circle would make keys grow without end. Before a
relationship becomes live or identifying, its link is checked against the others.
-/

namespace KeyedSchema

namespace Schema

/-- The tables one live identifying relationship away from a table, a relationship to be ignored
left out. -/
def identifyingChildren (s : Schema) (ignore : RelationshipId) (t : TableId) : List TableId :=
  (s.exportsOf t).filterMap fun r =>
    if r ≠ ignore ∧ s.isLive r then
      (s.relationships.get? r).bind fun rel => if rel.identifying then rel.child else none
    else none

/-- Visit a table and everything below it, in depth first order: the tables visited before, and
all that a walk of at most `depth` further tables finds. -/
def explore (next : TableId → List TableId) : Nat → List TableId → TableId → List TableId
  | 0, visited, _ => visited
  | depth + 1, visited, t =>
      if t ∈ visited then visited
      else (next t).foldl (fun visited u => explore next depth visited u) (t :: visited)

/-- The tables reached from a table along live identifying relationships. No walk without
repetition is longer than the number of tables. -/
def identifyingReach (s : Schema) (ignore : RelationshipId) (t : TableId) : List TableId :=
  explore (s.identifyingChildren ignore) (s.tables.size + 1) [] t

/-- Whether an identifying link from `parent` to `child` would close a circle. The relationship
that is being checked is ignored. -/
def closesCycle (s : Schema) (ignore : RelationshipId) (parent child : TableId) : Bool :=
  parent = child || parent ∈ s.identifyingReach ignore child

end Schema

end KeyedSchema
