/-!
# Ident — identifiers of tables, columns and relationships

The three kinds of objects are numbered apart from each other, from one upwards, and a number is
never given out twice within a schema. An identifier says nothing about whether its object exists.
-/

namespace KeyedSchema

/-- A table of a schema. -/
structure TableId where
  val : Nat
  deriving DecidableEq, Repr

/-- A column of a schema. -/
structure ColumnId where
  val : Nat
  deriving DecidableEq, Repr

/-- A relationship of a schema. -/
structure RelationshipId where
  val : Nat
  deriving DecidableEq, Repr

/-! ## Labels -/

/-- The text that stands for a table in messages and events. -/
def TableId.label (t : TableId) : String := s!"table#{t.val}"

/-- The text that stands for a column in messages and events. -/
def ColumnId.label (c : ColumnId) : String := s!"column#{c.val}"

/-- The text that stands for a relationship in messages and events. -/
def RelationshipId.label (r : RelationshipId) : String := s!"relationship#{r.val}"

end KeyedSchema
