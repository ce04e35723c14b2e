import KeyedSchema.Schema.Columns
import KeyedSchema.Schema.Relationships
import KeyedSchema.Schema.Tables

/-!
# Op — the public edits of a schema as data

Every edit that a client may ask for is a value of `Op`, so that a series of edits is a list and a
run of a schema can be spoken about. Series inside a scope are not operations of their own: see
`Scope` for how they are opened and closed.
-/

namespace KeyedSchema

/-- A public edit. -/
inductive Op
  | addTable (table : Table)
  | removeTable (table : TableId)
  | setTableName (table : TableId) (name : String)
  | setTablePhysicalName (table : TableId) (name : Option String)
  | setTableRemarks (table : TableId) (remarks : Option String)
  | addColumn (table : TableId) (column : Column)
  | insertColumn (table : TableId) (index : Nat) (column : Column)
  | removeColumn (column : ColumnId)
  | moveColumn (column : ColumnId) (index : Nat)
  | setColumnName (column : ColumnId) (name : String)
  | setColumnPhysicalName (column : ColumnId) (name : Option String)
  | setDefaultValue (column : ColumnId) (value : Option String)
  | setColumnRemarks (column : ColumnId) (remarks : Option String)
  | setDataType (column : ColumnId) (type : SqlType)
  | setPrecision (column : ColumnId) (precision : Nat)
  | setScale (column : ColumnId) (scale : Nat)
  | setNullable (column : ColumnId) (nullable : Bool)
  | setAutoIncrement (column : ColumnId) (autoIncrement : Bool)
  | setPrimaryKeySeq (column : ColumnId) (rank : Option Nat)
  | normalizePrimaryKey (table : TableId)
  | createRelationship (rel : Relationship)
  | setParent (rel : RelationshipId) (table : Option TableId)
  | setChild (rel : RelationshipId) (table : Option TableId)
  | addExportedKey (table : TableId) (rel : RelationshipId)
  | addImportedKey (table : TableId) (rel : RelationshipId)
  | removeExportedKey (table : TableId) (rel : RelationshipId)
  | removeImportedKey (table : TableId) (rel : RelationshipId)
  | removeRelationship (rel : RelationshipId)
  | addMapping (rel : RelationshipId) (pk fk : ColumnId)
  | removeMapping (rel : RelationshipId) (pk : ColumnId)
  | mapPrimaryKeyColumn (rel : RelationshipId) (pk : ColumnId)
  | attachRelationship (rel : RelationshipId) (parent child : TableId) (auto : Bool)
  | setIdentifying (rel : RelationshipId) (identifying : Bool)
  | setRelationshipName (rel : RelationshipId) (name : String)
  | setRelationshipPhysicalName (rel : RelationshipId) (name : Option String)
  | setParentCardinality (rel : RelationshipId) (value : Cardinality)
  | setChildCardinality (rel : RelationshipId) (value : Cardinality)
  | setUpdateRule (rel : RelationshipId) (rule : ReferentialAction)
  | setDeleteRule (rel : RelationshipId) (rule : ReferentialAction)
  | setDeferrability (rel : RelationshipId) (value : Deferrability)
  | setSecondaryChangeMode (table : TableId) (on : Bool)
  | setMagicEnabled (table : TableId) (on : Bool)
  deriving DecidableEq, Repr

/-- What a public edit yields. -/
inductive Reply
  | done
  | table (id : TableId)
  | column (id : ColumnId)
  | relationship (id : RelationshipId)
  | removedTable (table : Table) (columns : List Column)
  | removedColumn (column : Column)
  | removedRelationship (rel : Option Relationship)
  | removedMapping (m : Option Mapping)
  deriving DecidableEq, Repr

namespace Op

/-- The edit that an operation stands for. -/
def edit [Beyond] : Op → Edit Reply
  | addTable tbl => .table <$> Edit.addTable tbl
  | removeTable t => (fun (tbl, cols) => .removedTable tbl cols) <$> Edit.removeTable t
  | setTableName t name => (fun _ => .done) <$> Edit.setTableName t name
  | setTablePhysicalName t name => (fun _ => .done) <$> Edit.setTablePhysicalName t name
  | setTableRemarks t remarks => (fun _ => .done) <$> Edit.setTableRemarks t remarks
  | addColumn t col => .column <$> Edit.addColumn t col
  | insertColumn t index col => .column <$> Edit.insertColumn t index col
  | removeColumn c => .removedColumn <$> Edit.removeColumn c
  | moveColumn c index => (fun _ => .done) <$> Edit.moveColumn c index
  | setColumnName c name => (fun _ => .done) <$> Edit.setColumnName c name
  | setColumnPhysicalName c name => (fun _ => .done) <$> Edit.setColumnPhysicalName c name
  | setDefaultValue c value => (fun _ => .done) <$> Edit.setDefaultValue c value
  | setColumnRemarks c remarks => (fun _ => .done) <$> Edit.setColumnRemarks c remarks
  | setDataType c type => (fun _ => .done) <$> Edit.setDataType c type
  | setPrecision c precision => (fun _ => .done) <$> Edit.setPrecision c precision
  | setScale c scale => (fun _ => .done) <$> Edit.setScale c scale
  | setNullable c nullable => (fun _ => .done) <$> Edit.setNullable c nullable
  | setAutoIncrement c autoIncrement => (fun _ => .done) <$> Edit.setAutoIncrement c autoIncrement
  | setPrimaryKeySeq c rank => (fun _ => .done) <$> Edit.setPrimaryKeySeq c rank
  | normalizePrimaryKey t => (fun _ => .done) <$> Edit.normalizePrimaryKey t
  | createRelationship rel => .relationship <$> Edit.createRelationship rel
  | setParent r t => (fun _ => .done) <$> Edit.setParent r t
  | setChild r t => (fun _ => .done) <$> Edit.setChild r t
  | addExportedKey t r => (fun _ => .done) <$> Edit.addExportedKey t r
  | addImportedKey t r => (fun _ => .done) <$> Edit.addImportedKey t r
  | removeExportedKey t r => .removedRelationship <$> Edit.removeExportedKey t r
  | removeImportedKey t r => .removedRelationship <$> Edit.removeImportedKey t r
  | removeRelationship r => (fun rel => .removedRelationship (some rel)) <$> Edit.removeRelationship r
  | addMapping r pk fk => (fun _ => .done) <$> Edit.addMapping r pk fk
  | removeMapping r pk => .removedMapping <$> Edit.removeMapping r pk
  | mapPrimaryKeyColumn r pk => .column <$> Edit.mapPrimaryKeyColumn r pk
  | attachRelationship r parent child auto =>
      (fun _ => .done) <$> Edit.attachRelationship r parent child auto
  | setIdentifying r identifying => (fun _ => .done) <$> Edit.setIdentifying r identifying
  | setRelationshipName r name => (fun _ => .done) <$> Edit.setRelationshipName r name
  | setRelationshipPhysicalName r name => (fun _ => .done) <$> Edit.setRelationshipPhysicalName r name
  | setParentCardinality r value => (fun _ => .done) <$> Edit.setParentCardinality r value
  | setChildCardinality r value => (fun _ => .done) <$> Edit.setChildCardinality r value
  | setUpdateRule r rule => (fun _ => .done) <$> Edit.setUpdateRule r rule
  | setDeleteRule r rule => (fun _ => .done) <$> Edit.setDeleteRule r rule
  | setDeferrability r value => (fun _ => .done) <$> Edit.setDeferrability r value
  | setSecondaryChangeMode t on => (fun _ => .done) <$> Edit.setSecondaryChangeMode t on
  | setMagicEnabled t on => (fun _ => .done) <$> Edit.setMagicEnabled t on

/-- Carry out an operation: its reply or the cause of its refusal, and the schema it leaves. -/
def perform [Beyond] (op : Op) (s : Schema) : Except EditError Reply × Schema := op.edit.perform s

end Op

end KeyedSchema
