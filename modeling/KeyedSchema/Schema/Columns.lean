import KeyedSchema.Schema.Promotion

/-!
# Columns — adding, removing and changing columns

Foreign-key columns follow the key columns that they are mapped to:

- a new **name** is taken over by every follower that had the old name;
- a new **type**, precision, scale or nullability is taken over by every follower.

A follower that changes is followed in turn. A name that changes from one column to the next, or an
attribute that does, leaves one column less to change, so the nesting is bounded by the number of
columns.
-/

namespace KeyedSchema

/-- An attribute that foreign-key columns take over from the key column they are mapped to. -/
inductive SharedAttribute
  | type (value : SqlType)
  | precision (value : Nat)
  | scale (value : Nat)
  | nullable (value : Bool)
  deriving DecidableEq, Repr

namespace SharedAttribute

def property : SharedAttribute → Property
  | type _ => .dataType
  | precision _ => .precision
  | scale _ => .scale
  | nullable _ => .nullable

/-- The value that an attribute of this kind has in a column. -/
def read (a : SharedAttribute) (col : Column) : PropertyValue :=
  match a with
  | type _ => .type col.type
  | precision _ => .int col.precision
  | scale _ => .int col.scale
  | nullable _ => .bool col.nullable

/-- The column with the attribute's value. -/
def write (a : SharedAttribute) (col : Column) : Column :=
  match a with
  | type value => { col with type := value }
  | precision value => { col with precision := value }
  | scale value => { col with scale := value }
  | nullable value => { col with nullable := value }

end SharedAttribute

namespace Edit

/-! ## Columns of a table -/

/-- Put a column into a table at `index`. A column with a rank joins the key. -/
def insertColumn [Beyond] (t : TableId) (index : Nat) (col : Column) : Edit ColumnId := do
  let len := (← table t).columns.length
  if index > len then throw (.indexOutOfBounds t index len)
  let wide ← ask fun s => col.isKey && s.hasKeyDependents t
  compoundIf wide s!"add key column {col.name}" (insertColumnAt t index col)

/-- Put a column at the end of a table. -/
def addColumn [Beyond] (t : TableId) (col : Column) : Edit ColumnId := do
  insertColumn t (← table t).columns.length col

/-- Remove a column. One that a live relationship of its table maps as a foreign key is locked. -/
def removeColumn [Beyond] (c : ColumnId) : Edit Column := do
  let t ← ownerOf c
  discard (table t)
  let s ← get
  match s.lock? t c with
  | some r => throw (.lockedColumn c r)
  | none =>
      let mapped := (s.exportsOf t).any fun r =>
        (s.relationships.get? r).any fun rel => rel.mapsFrom c
      let col ← column c
      compoundIf mapped s!"remove column {col.name}" (removeColumnCascade c)

/-- Move a column to another place of its table. -/
def moveColumn (c : ColumnId) (index : Nat) : Edit Unit := do
  let t ← ownerOf c
  let tbl ← table t
  let len := tbl.columns.length
  if index ≥ len then throw (.indexOutOfBounds t index len)
  let i ← require (tbl.columns.idxOf? c) (.columnNotInTable c t)
  -- a move is told as a removal and an insertion
  change fun s => s.changeTable t fun tbl => { tbl with columns := tbl.columns.eraseIdx i }
  raise (.childRemoved (.table t) (.column c) i)
  change fun s => s.changeTable t fun tbl => { tbl with columns := tbl.columns.insertIdx index c }
  raise (.childInserted (.table t) (.column c) index)
  if (← column c).isKey then
    if (← table t).cascades then normalizeKey t none

/-! ## Names -/

/-- Rename a column, and the followers that had its old name, with at most `depth` nested
renamings. -/
def renameWithin [Beyond] (name : String) : Nat → ColumnId → Edit Unit
  | 0, c => Beyond.rename c
  | depth + 1, c => do
      let old := (← column c).name
      change fun s => s.changeColumn c fun col => { col with name }
      raise (.propertyChanged (.column c) .name (.text old) (.text name))
      -- a column that has the name already passes it on to nobody
      if old ≠ name then
        let followers ← followers c
        followers.forM fun fk => do
          if (← column fk).name = old then renameWithin name depth fk

/-- Rename a column. Followers that had its old name are renamed with it. -/
def setColumnName [Beyond] (c : ColumnId) (name : String) : Edit Unit := do
  discard (column c)
  let followers ← followers c
  let s ← get
  compoundIf (!followers.isEmpty) s!"rename column to {name}"
    (renameWithin name (s.columns.size + 1) c)

/-! ## Shared attributes -/

/-- Change a shared attribute of a column, and of its followers, with at most `depth` nested
changes. -/
def setSharedWithin [Beyond] (a : SharedAttribute) : Nat → ColumnId → Edit Unit
  | 0, c => Beyond.share c
  | depth + 1, c => do
      let col ← column c
      change fun s => s.changeColumn c a.write
      raise (.propertyChanged (.column c) a.property (a.read col) (a.read (a.write col)))
      if a.write col ≠ col then
        let followers ← followers c
        followers.forM (setSharedWithin a depth)

/-- Change a shared attribute of a column; its followers take it over. -/
def setShared [Beyond] (a : SharedAttribute) (c : ColumnId) : Edit Unit := do
  discard (column c)
  let followers ← followers c
  let s ← get
  compoundIf (!followers.isEmpty) "change key column attribute"
    (setSharedWithin a (s.columns.size + 1) c)

def setDataType [Beyond] (c : ColumnId) (type : SqlType) : Edit Unit := setShared (.type type) c

def setPrecision [Beyond] (c : ColumnId) (precision : Nat) : Edit Unit :=
  setShared (.precision precision) c

def setScale [Beyond] (c : ColumnId) (scale : Nat) : Edit Unit := setShared (.scale scale) c

def setNullable [Beyond] (c : ColumnId) (nullable : Bool) : Edit Unit :=
  setShared (.nullable nullable) c

/-! ## Attributes of one column alone -/

/-- Change an attribute of a column and tell of it, whether or not the value differs. -/
def describeColumn (c : ColumnId) (property : Property) (value : Column → PropertyValue)
    (f : Column → Column) : Edit Unit := do
  let old ← column c
  change fun s => s.changeColumn c f
  raise (.propertyChanged (.column c) property (value old) (value (f old)))

def setColumnPhysicalName (c : ColumnId) (name : Option String) : Edit Unit :=
  describeColumn c .physicalName (fun col => .ofText? col.physicalOverride) fun col =>
    { col with physicalOverride := name }

def setAutoIncrement (c : ColumnId) (autoIncrement : Bool) : Edit Unit :=
  describeColumn c .autoIncrement (fun col => .bool col.autoIncrement) fun col =>
    { col with autoIncrement }

def setDefaultValue (c : ColumnId) (value : Option String) : Edit Unit :=
  describeColumn c .defaultValue (fun col => .ofText? col.defaultValue) fun col =>
    { col with defaultValue := value }

def setColumnRemarks (c : ColumnId) (remarks : Option String) : Edit Unit :=
  describeColumn c .remarks (fun col => .ofText? col.remarks) fun col => { col with remarks }

/-! ## The key -/

/-- The key of a table, by rank. -/
def primaryKey (t : TableId) : Edit (List ColumnId) := do
  discard (table t)
  ask fun s => s.primaryKey t

/-- How the compound edit around a rank change is described. -/
def rankDescription (name : String) : Option Nat → String
  | some _ => s!"add {name} to primary key"
  | none => s!"remove {name} from primary key"

/-- Give a column a rank in the key of its table, or take it out of the key. At a taken rank the
column goes in front of the one that has it. -/
def setPrimaryKeySeq [Beyond] (c : ColumnId) (rank : Option Nat) : Edit Unit := do
  let t ← ownerOf c
  let wide ← ask fun s => s.hasKeyDependents t
  compoundIf wide (rankDescription (← column c).name rank) (setRank promote c rank)

/-- Number the key of a table from zero, whatever the table's switches say. -/
def normalizePrimaryKey (t : TableId) : Edit Unit := do
  discard (table t)
  normalizeKey t none

end Edit

end KeyedSchema
