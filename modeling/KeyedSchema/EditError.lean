import KeyedSchema.Ident

/-!
# EditError — why an edit is refused

Each constructor is one cause; `message` is its wording. A cause is either a mistake of the caller
or an object in a state that does not allow the edit.
-/

namespace KeyedSchema

/-- The cause of a refused edit. -/
inductive EditError
  | unknownTable (table : TableId)
  | unknownColumn (column : ColumnId)
  | unknownRelationship (rel : RelationshipId)
  | indexOutOfBounds (table : TableId) (index len : Nat)
  /-- A relationship was to be exported by a table that is not its parent. -/
  | mismatchedParent (rel : RelationshipId) (expected : Option TableId) (actual : TableId)
  /-- A relationship was to be imported by a table that is not its child. -/
  | mismatchedChild (rel : RelationshipId) (expected : Option TableId) (actual : TableId)
  | columnNotInTable (column : ColumnId) (table : TableId)
  | notPrimaryKey (column : ColumnId)
  | duplicateMapping (rel : RelationshipId) (column : ColumnId)
  /-- The ends of a relationship are fixed while it is registered or mapped. -/
  | relationshipRegistered (rel : RelationshipId)
  | notRegistered (rel : RelationshipId) (table : TableId)
  /-- A live relationship that the table imports maps the column. -/
  | lockedColumn (column : ColumnId) (rel : RelationshipId)
  | identifyingCycle (rel : RelationshipId)
  | relationshipNotLive (rel : RelationshipId)
  | relationshipIncomplete (rel : RelationshipId)
  deriving DecidableEq, Repr

namespace EditError

/-- Whether the cause is the state of an object, and not the caller's arguments. -/
def isIllegalState : EditError → Bool
  | relationshipNotLive _ => true
  | relationshipIncomplete _ => true
  | _ => false

/-- Whether the cause is a mistake of the caller. -/
def isInvalidArgument (e : EditError) : Bool := !e.isIllegalState

/-- An end of a relationship as the mismatch messages show it. -/
def showEnd : Option TableId → String
  | none => "None"
  | some t => s!"Some(TableId({t.val}))"

def message : EditError → String
  | unknownTable t => s!"unknown table {t.label}"
  | unknownColumn c => s!"unknown column {c.label}"
  | unknownRelationship r => s!"unknown relationship {r.label}"
  | indexOutOfBounds t index len =>
      s!"index {index} out of bounds for table {t.label} with {len} columns"
  | mismatchedParent r expected actual =>
      s!"relationship {r.label} has parent {showEnd expected}, cannot be exported by {actual.label}"
  | mismatchedChild r expected actual =>
      s!"relationship {r.label} has child {showEnd expected}, cannot be imported by {actual.label}"
  | columnNotInTable c t => s!"column {c.label} does not belong to table {t.label}"
  | notPrimaryKey c => s!"column {c.label} is not a primary key column"
  | duplicateMapping r c => s!"relationship {r.label} already maps primary key column {c.label}"
  | relationshipRegistered r =>
      s!"relationship {r.label} is registered or mapped; its tables cannot change"
  | notRegistered r t => s!"relationship {r.label} is not registered on table {t.label}"
  | lockedColumn c r => s!"column {c.label} is locked by imported relationship {r.label}"
  | identifyingCycle r => s!"identifying relationship {r.label} would form a cycle"
  | relationshipNotLive r => s!"relationship {r.label} is not registered on both its tables"
  | relationshipIncomplete r => s!"relationship {r.label} has no parent or child table"

end EditError

end KeyedSchema
