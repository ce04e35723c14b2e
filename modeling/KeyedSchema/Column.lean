import KeyedSchema.Ident
import KeyedSchema.SqlType

/-!
# Column — columns of tables

A column is in the primary key of its table exactly when it has a rank; the ranks order the key.
-/

namespace KeyedSchema

/-- A typed column. -/
structure Column where
  name : String
  /-- The name to use in the database, where it differs from the logical name. -/
  physicalOverride : Option String := none
  type : SqlType := .integer
  precision : Nat := 0
  scale : Nat := 0
  nullable : Bool := true
  autoIncrement : Bool := false
  defaultValue : Option String := none
  remarks : Option String := none
  /-- The place in the primary key; columns outside the key have none. -/
  rank : Option Nat := none
  /-- The table that owns the column; a column that is in no schema has none. -/
  table : Option TableId := none
  deriving DecidableEq, Repr

namespace Column

/-- The name to use in the database. -/
def physicalName (c : Column) : String := c.physicalOverride.getD c.name

def isKey (c : Column) : Bool := c.rank.isSome

/-- The foreign-key column that stands for a key column: it takes over the name and the type, and
leaves the rest at the defaults. -/
def derivedFrom (key : Column) : Column :=
  { name := key.name, type := key.type, precision := key.precision, scale := key.scale,
    nullable := key.nullable }

end Column

end KeyedSchema
