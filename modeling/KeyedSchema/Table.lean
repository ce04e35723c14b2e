import KeyedSchema.Ident

/-!
# Table — tables and the relationships they take part in

A table lists its columns in display order, the relationships it *exports* (it is their parent)
and those it *imports* (it is their child), each in the order of registration.

Two switches govern what happens when its key changes:

- **secondary-change mode** holds back the table's events and suspends its key cascades until the
  mode is left;
- **magic** turned off suspends the key cascades for good: nothing is caught up later.
-/

namespace KeyedSchema

/-- A table of a schema, or a table that has left one. -/
structure Table where
  name : String
  /-- The name to use in the database, where it differs from the logical name. -/
  physicalOverride : Option String := none
  remarks : Option String := none
  columns : List ColumnId := []
  exportedKeys : List RelationshipId := []
  importedKeys : List RelationshipId := []
  inSecondaryChange : Bool := false
  magicEnabled : Bool := true
  deriving DecidableEq, Repr

namespace Table

/-- The name to use in the database. -/
def physicalName (t : Table) : String := t.physicalOverride.getD t.name

/-- Whether changes of the table's key cascade. -/
def cascades (t : Table) : Bool := t.magicEnabled && !t.inSecondaryChange

end Table

end KeyedSchema
