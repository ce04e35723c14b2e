import KeyedSchema.Schema.Basic

/-!
# Snapshot — a schema as a plain value

A snapshot is what reports are made from. It shows names where the schema has identifiers, except
for registrations, and leaves out what only edits need.
-/

namespace KeyedSchema

structure ColumnSnapshot where
  name : String
  physicalName : String
  type : SqlType
  precision : Nat
  scale : Nat
  nullable : Bool
  rank : Option Nat
  deriving DecidableEq, Repr

structure TableSnapshot where
  id : TableId
  name : String
  physicalName : String
  columns : List ColumnSnapshot
  exportedKeys : List RelationshipId
  importedKeys : List RelationshipId
  inSecondaryChange : Bool
  magicEnabled : Bool
  deriving DecidableEq, Repr

structure RelationshipSnapshot where
  id : RelationshipId
  name : String
  physicalName : String
  parent : Option String
  child : Option String
  identifying : Bool
  live : Bool
  parentCardinality : Cardinality
  childCardinality : Cardinality
  updateRule : ReferentialAction
  deleteRule : ReferentialAction
  deferrability : Deferrability
  /-- The names of the parent and the child column of each mapping. -/
  mappings : List (String × String)
  deriving DecidableEq, Repr

structure SchemaSnapshot where
  tables : List TableSnapshot
  relationships : List RelationshipSnapshot
  deriving DecidableEq, Repr

/-! ## Taking a snapshot -/

def ColumnSnapshot.ofColumn (c : Column) : ColumnSnapshot :=
  { name := c.name, physicalName := c.physicalName, type := c.type, precision := c.precision,
    scale := c.scale, nullable := c.nullable, rank := c.rank }

namespace Schema

/-- The logical name of a column, empty for an unknown one. -/
def columnName (s : Schema) (c : ColumnId) : String := (s.columns.get? c).elim "" Column.name

/-- The logical name of a table. -/
def tableName? (s : Schema) (t : TableId) : Option String := (s.tables.get? t).map Table.name

def tableSnapshot (s : Schema) (id : TableId) (t : Table) : TableSnapshot :=
  { id, name := t.name, physicalName := t.physicalName
    columns := (t.columns.filterMap s.columns.get?).map ColumnSnapshot.ofColumn
    exportedKeys := t.exportedKeys, importedKeys := t.importedKeys
    inSecondaryChange := t.inSecondaryChange, magicEnabled := t.magicEnabled }

def relationshipSnapshot (s : Schema) (id : RelationshipId) (r : Relationship) :
    RelationshipSnapshot :=
  { id, name := r.name, physicalName := r.physicalName
    parent := r.parent.bind s.tableName?, child := r.child.bind s.tableName?
    identifying := r.identifying, live := s.isLive id
    parentCardinality := r.parentCardinality, childCardinality := r.childCardinality
    updateRule := r.updateRule, deleteRule := r.deleteRule, deferrability := r.deferrability
    mappings := r.mappings.map fun m => (s.columnName m.pk, s.columnName m.fk) }

/-- The schema as it stands, as a plain value. -/
def snapshot (s : Schema) : SchemaSnapshot :=
  { tables := s.tables.entries.map fun (id, t) => s.tableSnapshot id t
    relationships := s.relationships.entries.map fun (id, r) => s.relationshipSnapshot id r }

end Schema

/-! ## Questions to a snapshot -/

/-- The first table with the given name. -/
def SchemaSnapshot.tableNamed? (s : SchemaSnapshot) (name : String) : Option TableSnapshot :=
  s.tables.find? fun t => t.name == name

/-- The names of the key columns by rank, ties in display order. -/
def TableSnapshot.primaryKey (t : TableSnapshot) : List String :=
  (sortOn Prod.snd (t.columns.filterMap fun c => c.rank.map fun rank => (c.name, rank))).map
    Prod.fst

end KeyedSchema
