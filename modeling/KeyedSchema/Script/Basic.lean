import KeyedSchema.Column
import KeyedSchema.Config

/-!
# Script — edits that name their objects

A script is a list of steps for a fresh schema. Steps call tables, columns and relationships by
their names, so that a script can be written before any identifier has been given out.
-/

namespace KeyedSchema

/-- A column as a step describes it. -/
structure ColumnSpec where
  name : String
  type : SqlType := .integer
  precision : Nat := 0
  scale : Nat := 0
  nullable : Bool := true
  rank : Option Nat := none
  deriving DecidableEq, Repr

/-- The column that a description stands for. -/
def ColumnSpec.toColumn (c : ColumnSpec) : Column :=
  { name := c.name, type := c.type, precision := c.precision, scale := c.scale,
    nullable := c.nullable, rank := c.rank }

/-- A relationship as a step describes it. -/
structure RelationshipSpec where
  /-- The name; without one the names of the two tables make it up. -/
  name : Option String := none
  parent : String
  child : String
  identifying : Bool := false
  /-- Whether the key of the parent is to be mapped where no mappings are listed. -/
  autoMap : Bool := true
  /-- The columns to map, each with the parent's column in front of the child's. -/
  mappings : List (String × String) := []
  deriving DecidableEq, Repr

/-- The name that the relationship gets. -/
def RelationshipSpec.fullName (r : RelationshipSpec) : String :=
  r.name.getD s!"{r.parent}_{r.child}"

/-- One edit of a script. -/
inductive Step
  | createTable (name : String) (columns : List ColumnSpec)
  | addColumn (table : String) (column : ColumnSpec)
  /-- Give a column a rank in the key of its table, or take it out of the key. -/
  | setPrimaryKey (table column : String) (rank : Option Nat)
  | removeColumn (table column : String)
  | renameColumn (table column name : String)
  | createRelationship (rel : RelationshipSpec)
  | removeRelationship (name : String)
  | removeTable (name : String)
  deriving DecidableEq, Repr

/-- The word that says what a step does. -/
def Step.code : Step → String
  | createTable .. => "create_table"
  | addColumn .. => "add_column"
  | setPrimaryKey .. => "set_primary_key"
  | removeColumn .. => "remove_column"
  | renameColumn .. => "rename_column"
  | createRelationship .. => "create_relationship"
  | removeRelationship .. => "remove_relationship"
  | removeTable .. => "remove_table"

/-- The steps of a script, and the configuration it asks for. -/
structure Script where
  config : Option Config := none
  steps : List Step
  deriving DecidableEq, Repr

end KeyedSchema
