import KeyedSchema.Config
import KeyedSchema.Ident

/-!
# Relationship — links from a parent table to a child table

A relationship maps key columns of its parent to foreign-key columns of its child. An
*identifying* relationship makes the child's columns part of the child's own key.
-/

namespace KeyedSchema

/-- A key column of the parent and the column of the child that refers to it. -/
structure Mapping where
  pk : ColumnId
  fk : ColumnId
  deriving DecidableEq, Repr

/-- A directed link from one parent table to one child table. -/
structure Relationship where
  name : String := ""
  /-- The name to use in the database, where it differs from the logical name. -/
  physicalOverride : Option String := none
  parent : Option TableId := none
  child : Option TableId := none
  mappings : List Mapping := []
  identifying : Bool := false
  parentCardinality : Cardinality := .parentDefault
  childCardinality : Cardinality := .childDefault
  updateRule : ReferentialAction := .noAction
  deleteRule : ReferentialAction := .noAction
  deferrability : Deferrability := .notDeferrable
  deriving DecidableEq, Repr

namespace Relationship

/-- A detached relationship with the defaults of a configuration. -/
def ofConfig (config : Config) : Relationship :=
  { parentCardinality := config.parentCardinality, childCardinality := config.childCardinality,
    updateRule := config.updateRule, deleteRule := config.deleteRule,
    deferrability := config.deferrability }

/-- The name to use in the database. -/
def physicalName (r : Relationship) : String := r.physicalOverride.getD r.name

/-- The first mapping of a parent column. -/
def mappingOf? (r : Relationship) (pk : ColumnId) : Option Mapping :=
  r.mappings.find? fun m => m.pk = pk

/-- Whether some mapping has the column on its parent side. -/
def mapsFrom (r : Relationship) (c : ColumnId) : Bool := r.mappings.any fun m => m.pk = c

/-- Whether some mapping has the column on its child side. -/
def mapsTo (r : Relationship) (c : ColumnId) : Bool := r.mappings.any fun m => m.fk = c

end Relationship

end KeyedSchema
