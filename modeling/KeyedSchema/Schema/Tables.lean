import KeyedSchema.Schema.Removal

/-!
# Tables — adding, removing and describing tables
-/

namespace KeyedSchema

namespace Schema

/-- The relationships that have the table as one of their ends. -/
def relationshipsOf (s : Schema) (t : TableId) : List RelationshipId :=
  s.relationships.keysWhere fun _ rel => rel.parent = some t || rel.child = some t

/-- Put a table at the end of the schema. It joins without columns and registrations, since those
belong to the table it may be a copy of, and with its switches at their defaults. -/
def appendTable (tbl : Table) (s : Schema) : Schema :=
  let t : TableId := ⟨s.lastTable + 1⟩
  let joined := { tbl with
    columns := []
    exportedKeys := []
    importedKeys := []
    inSecondaryChange := false
    magicEnabled := s.config.magicByDefault }
  { s with
    tables := s.tables.insert t joined
    lastTable := s.lastTable + 1 }.raise (.childInserted .schema (.table t) s.tables.size)

/-- Take a table and the columns it lists out of the schema. -/
def eraseTable (t : TableId) (i : Nat) (s : Schema) : Schema :=
  { s with
    tables := s.tables.erase t
    columns := (s.columnsOf t).foldl (fun cols c => cols.erase c) s.columns }.raise
      (.childRemoved .schema (.table t) i)

end Schema

namespace Edit

/-- Add a table at the end of the schema. -/
def addTable (tbl : Table) : Edit TableId := do
  change (Schema.appendTable tbl)
  ask fun s => ⟨s.lastTable⟩

/-- Remove a relationship of a table that is about to go, unless it is gone already. -/
def dismissRelationship [Beyond] (r : RelationshipId) : Edit Unit := do
  let s ← get
  if s.relationships.contains r then
    if s.isLive r then discard (detachCascade r) else discard (discardRelationship r)

/-- Remove a table after its relationships, and yield it with the columns that it had. -/
def removeTableCascade [Beyond] (t : TableId) : Edit (Table × List Column) := do
  let referring ← ask fun s => s.relationshipsOf t
  referring.forM dismissRelationship
  discard (table t)
  -- what was held back for the table is told before the table goes
  change fun s => s.changeTable t fun tbl => { tbl with inSecondaryChange := false }
  change (Schema.release t)
  let tbl ← table t
  let s ← get
  let i ← require (s.tables.indexOf? t) (.unknownTable t)
  let cols := tbl.columns.filterMap s.columns.get?
  change (Schema.eraseTable t i)
  return ({ tbl with columns := [] }, cols.map fun col => { col with table := none })

/-- Remove a table and everything that depends on it. Relationships that refer to the table go
first; live ones take the child columns along that only they mapped. -/
def removeTable [Beyond] (t : TableId) : Edit (Table × List Column) := do
  let tbl ← table t
  compound s!"remove table {tbl.name}" (removeTableCascade t)

/-! ## Descriptions -/

/-- Change an attribute of a table and tell of it, whether or not the value differs. -/
def describeTable (t : TableId) (property : Property) (value : Table → PropertyValue)
    (f : Table → Table) : Edit Unit := do
  let old ← table t
  change fun s => s.changeTable t f
  raise (.propertyChanged (.table t) property (value old) (value (f old)))

def setTableName (t : TableId) (name : String) : Edit Unit :=
  describeTable t .name (fun tbl => .text tbl.name) fun tbl => { tbl with name }

def setTablePhysicalName (t : TableId) (name : Option String) : Edit Unit :=
  describeTable t .physicalName (fun tbl => .ofText? tbl.physicalOverride) fun tbl =>
    { tbl with physicalOverride := name }

def setTableRemarks (t : TableId) (remarks : Option String) : Edit Unit :=
  describeTable t .remarks (fun tbl => .ofText? tbl.remarks) fun tbl => { tbl with remarks }

end Edit

end KeyedSchema
