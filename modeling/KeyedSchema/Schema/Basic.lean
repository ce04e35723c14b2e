import KeyedSchema.Column
import KeyedSchema.Event
import KeyedSchema.Roster
import KeyedSchema.StableOrder
import KeyedSchema.Table

/-!
# Schema — tables, columns and relationships in one value

A `Schema` holds every object under its identifier and remembers, besides:

- the last number given out for each kind of object, so that no identifier comes back;
- the events that are **held** back for the tables in secondary-change mode;
- every event that was **raised**, in the order of the changes, and every event that was
  **published**, in the order in which listeners hear them. The two orders differ only by what
  secondary-change mode holds back;
- the **origins** of the columns: every column as it was put in, those included that are gone by
  now. Nothing is decided by them; they say what the told changes of a column start from.

This module has the questions that can be asked of a schema; nothing here changes one.
-/

namespace KeyedSchema

/-- A relational schema and the events it has told. -/
structure Schema where
  config : Config := {}
  tables : Roster TableId Table := .empty
  columns : Roster ColumnId Column := .empty
  relationships : Roster RelationshipId Relationship := .empty
  lastTable : Nat := 0
  lastColumn : Nat := 0
  lastRelationship : Nat := 0
  held : Roster TableId (List Event) := .empty
  raised : List Event := []
  published : List Event := []
  origins : Roster ColumnId Column := .empty
  deriving DecidableEq, Repr

namespace Schema

/-- The schema without any object. -/
def ofConfig (config : Config) : Schema := { config }

/-! ## Names -/

/-- The first table with the given logical name. -/
def tableNamed? (s : Schema) (name : String) : Option TableId :=
  s.tables.findKey? fun _ t => t.name == name

/-- The first relationship with the given name. -/
def relationshipNamed? (s : Schema) (name : String) : Option RelationshipId :=
  s.relationships.findKey? fun _ r => r.name == name

/-- The columns of a table in display order. -/
def columnsOf (s : Schema) (t : TableId) : List ColumnId :=
  (s.tables.get? t).elim [] Table.columns

/-- The first column of a table with the given logical name. -/
def columnNamed? (s : Schema) (t : TableId) (name : String) : Option ColumnId :=
  (s.columnsOf t).find? fun c => (s.columns.get? c).any fun col => col.name == name

/-- The table that owns a column. -/
def owner? (s : Schema) (c : ColumnId) : Option TableId := (s.columns.get? c).bind Column.table

/-- The place of a column within its table. -/
def columnIndex? (s : Schema) (c : ColumnId) : Option Nat := do
  let t ← s.owner? c
  let tbl ← s.tables.get? t
  tbl.columns.idxOf? c

/-! ## Registered relationships -/

/-- The relationships a table exports, in the order of registration. -/
def exportsOf (s : Schema) (t : TableId) : List RelationshipId :=
  (s.tables.get? t).elim [] Table.exportedKeys

/-- The relationships a table imports, in the order of registration. -/
def importsOf (s : Schema) (t : TableId) : List RelationshipId :=
  (s.tables.get? t).elim [] Table.importedKeys

/-- Whether a relationship is registered on both of its tables. -/
def isLive (s : Schema) (r : RelationshipId) : Bool :=
  (s.relationships.get? r).any fun rel =>
    rel.parent.any (fun t => r ∈ s.exportsOf t) && rel.child.any (fun t => r ∈ s.importsOf t)

/-- Whether some table has the relationship registered, on either side. -/
def isRegistered (s : Schema) (r : RelationshipId) : Bool :=
  s.tables.anyEntry fun _ t => r ∈ t.exportedKeys || r ∈ t.importedKeys

/-- The live relationships a table exports. -/
def liveExportsOf (s : Schema) (t : TableId) : List RelationshipId :=
  (s.exportsOf t).filter s.isLive

/-! ## Keys -/

/-- The rank of a column in the key of its table. -/
def rank? (s : Schema) (c : ColumnId) : Option Nat := (s.columns.get? c).bind Column.rank

/-- Whether a column is in the key of its table. -/
def isKey (s : Schema) (c : ColumnId) : Bool := (s.rank? c).isSome

/-- The key columns of a table in display order, each with its rank. -/
def keyRanks (s : Schema) (t : TableId) : List (ColumnId × Nat) :=
  (s.columnsOf t).filterMap fun c => (s.rank? c).map fun rank => (c, rank)

/-- The key of a table: its key columns by rank, ties in display order. -/
def primaryKey (s : Schema) (t : TableId) : List ColumnId :=
  (sortOn Prod.snd (s.keyRanks t)).map Prod.fst

/-- Whether changes of a table's key cascade. -/
def cascades (s : Schema) (t : TableId) : Bool := (s.tables.get? t).any Table.cascades

/-- Whether a change of the table's key would reach other tables. -/
def hasKeyDependents (s : Schema) (t : TableId) : Bool :=
  s.cascades t && (s.exportsOf t).any s.isLive

/-- Whether the mappings of a relationship follow the key of its parent exactly. -/
def mapsKeyOf (s : Schema) (rel : Relationship) (parent : TableId) : Bool :=
  rel.mappings.map Mapping.pk == s.primaryKey parent

/-! ## Mapped columns -/

/-- The foreign-key columns that follow a column: those that the live relationships exported by
its table map it to. Only a key column of a table whose cascades are enabled has any. -/
def followers (s : Schema) (c : ColumnId) : List ColumnId :=
  match s.owner? c with
  | none => []
  | some t =>
      if s.isKey c && s.cascades t then
        distinct ((s.liveExportsOf t).filterMap fun r => do
          let rel ← s.relationships.get? r
          let m ← rel.mappingOf? c
          if m.fk = c then none else some m.fk)
      else []

/-- Whether a live relationship maps the column on its child side. -/
def isRetained (s : Schema) (c : ColumnId) : Bool :=
  s.relationships.anyEntry fun r rel => rel.mapsTo c && s.isLive r

/-- Whether a live identifying relationship, other than the given one, maps the column on its
child side. -/
def isHeldInKey (s : Schema) (c : ColumnId) (except : RelationshipId) : Bool :=
  s.relationships.anyEntry fun r rel =>
    r ≠ except && rel.identifying && rel.mapsTo c && s.isLive r

/-- The relationship that keeps a column from being removed: a live one, imported by the column's
table, that maps it. -/
def lock? (s : Schema) (t : TableId) (c : ColumnId) : Option RelationshipId :=
  (s.importsOf t).find? fun r => s.isLive r && (s.relationships.get? r).any fun rel => rel.mapsTo c

end Schema

end KeyedSchema
