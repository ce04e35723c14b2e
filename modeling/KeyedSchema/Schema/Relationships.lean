import KeyedSchema.Schema.Cycle
import KeyedSchema.Schema.Scope

/-!
# Relationships — creating, registering, mapping and changing relationships

A relationship takes part in key cascades only while it is *live*, that is, registered with its
parent and with its child. Registering checks that identifying relationships do not go in a circle.
-/

namespace KeyedSchema

namespace Schema

/-- Store a relationship under a new identifier. -/
def appendRelationship (rel : Relationship) (s : Schema) : Schema :=
  { s with relationships := s.relationships.insert ⟨s.lastRelationship⟩ rel }

/-- Whether a relationship with these ends closes a circle of identifying relationships. A missing
end closes nothing. -/
def endsCloseCycle (s : Schema) (r : RelationshipId) (parent child : Option TableId) : Bool :=
  match parent, child with
  | some p, some c => s.closesCycle r p c
  | _, _ => false

/-- Put a relationship at the end of its parent's exported keys. -/
def registerExported (t : TableId) (r : RelationshipId) (s : Schema) : Schema :=
  (s.changeTable t fun tbl => { tbl with exportedKeys := tbl.exportedKeys ++ [r] }).raise
    (.childInserted (.table t) (.exportedKey r) (s.exportsOf t).length)

/-- Put a relationship at the end of its child's imported keys. -/
def registerImported (t : TableId) (r : RelationshipId) (s : Schema) : Schema :=
  (s.changeTable t fun tbl => { tbl with importedKeys := tbl.importedKeys ++ [r] }).raise
    (.childInserted (.table t) (.importedKey r) (s.importsOf t).length)

/-- Change the parent of a relationship and tell of it. -/
def changeParent (r : RelationshipId) (old new : Option TableId) (s : Schema) : Schema :=
  (s.changeRelationship r fun rel => { rel with parent := new }).raise
    (.propertyChanged (.relationship r) .pkTable (.ofTable? old) (.ofTable? new))

/-- Change the child of a relationship and tell of it. -/
def changeChild (r : RelationshipId) (old new : Option TableId) (s : Schema) : Schema :=
  (s.changeRelationship r fun rel => { rel with child := new }).raise
    (.propertyChanged (.relationship r) .fkTable (.ofTable? old) (.ofTable? new))

end Schema

namespace Edit

/-! ## Creating and connecting -/

/-- Refuse an identifying relationship with these ends if it closes a circle. -/
def refuseCycle (r : RelationshipId) (identifying : Bool) (parent child : Option TableId) :
    Edit Unit := do
  if identifying && (← get).endsCloseCycle r parent child then throw (.identifyingCycle r)

/-- Add a relationship to the schema. It joins without mappings and unregistered; its ends have to
be tables of the schema. A relationship refused for a circle has used up its identifier. -/
def createRelationship (rel : Relationship) : Edit RelationshipId := do
  rel.parent.toList.forM fun t => discard (table t)
  rel.child.toList.forM fun t => discard (table t)
  change fun s => { s with lastRelationship := s.lastRelationship + 1 }
  let r ← ask fun s => ⟨s.lastRelationship⟩
  refuseCycle r rel.identifying rel.parent rel.child
  change (Schema.appendRelationship { rel with mappings := [] })
  return r

/-- Refuse to change an end of a relationship that is mapped or registered, and refuse an unknown
table as an end. -/
def checkEndsMutable (r : RelationshipId) (t : Option TableId) : Edit Relationship := do
  let rel ← relationship r
  if !rel.mappings.isEmpty || (← get).isRegistered r then throw (.relationshipRegistered r)
  t.toList.forM fun t => discard (table t)
  return rel

/-- Set or clear the parent of a relationship. -/
def setParent (r : RelationshipId) (t : Option TableId) : Edit Unit := do
  let rel ← checkEndsMutable r t
  refuseCycle r rel.identifying t rel.child
  change (Schema.changeParent r rel.parent t)

/-- Set or clear the child of a relationship. -/
def setChild (r : RelationshipId) (t : Option TableId) : Edit Unit := do
  let rel ← checkEndsMutable r t
  refuseCycle r rel.identifying rel.parent t
  change (Schema.changeChild r rel.child t)

/-! ## Registering -/

/-- Register a relationship with its parent. Registering again does nothing. -/
def addExportedKey (t : TableId) (r : RelationshipId) : Edit Unit := do
  let tbl ← table t
  let rel ← relationship r
  if rel.parent ≠ some t then throw (.mismatchedParent r rel.parent t)
  if r ∉ tbl.exportedKeys then
    refuseCycle r rel.identifying rel.parent rel.child
    change (Schema.registerExported t r)

/-- Register a relationship with its child. Registering again does nothing. -/
def addImportedKey (t : TableId) (r : RelationshipId) : Edit Unit := do
  let tbl ← table t
  let rel ← relationship r
  if rel.child ≠ some t then throw (.mismatchedChild r rel.child t)
  if r ∉ tbl.importedKeys then
    refuseCycle r rel.identifying rel.parent rel.child
    change (Schema.registerImported t r)

/-- Remove a live relationship, as one compound edit. -/
def detach [Beyond] (r : RelationshipId) : Edit Relationship := do
  let rel ← relationship r
  compound s!"remove relationship {rel.name}" (detachCascade r)

/-- Unregister a relationship from its parent. A live one is removed altogether and yielded. -/
def removeExportedKey [Beyond] (t : TableId) (r : RelationshipId) : Edit (Option Relationship) := do
  if r ∉ (← table t).exportedKeys then throw (.notRegistered r t)
  if (← get).isLive r then
    return some (← detach r)
  else
    discard (relationship r)
    change (Schema.deregisterExported r)
    return none

/-- Unregister a relationship from its child. A live one is removed altogether and yielded. -/
def removeImportedKey [Beyond] (t : TableId) (r : RelationshipId) : Edit (Option Relationship) := do
  if r ∉ (← table t).importedKeys then throw (.notRegistered r t)
  if (← get).isLive r then
    return some (← detach r)
  else
    discard (relationship r)
    change (Schema.deregisterImported r)
    return none

/-- Remove a relationship. A live one takes the child columns along that only it mapped. -/
def removeRelationship [Beyond] (r : RelationshipId) : Edit Relationship := do
  discard (relationship r)
  if (← get).isLive r then detach r else discardRelationship r

/-! ## Mapping -/

/-- Refuse a column that is not in the key of the given table. -/
def requireKeyColumn (t : TableId) (c : ColumnId) : Edit Column := do
  let col ← column c
  if col.table ≠ some t then throw (.columnNotInTable c t)
  if !col.isKey then throw (.notPrimaryKey c)
  return col

/-- Append a mapping; its child column is promoted if `joinKey` says so. On a live relationship of
a parent whose cascades are enabled the mappings are then brought into key order. -/
def pushMapping [Beyond] (r : RelationshipId) (m : Mapping) (joinKey : Bool) : Edit Unit := do
  discard (relationship r)
  change (Schema.appendMapping r m)
  if joinKey then promote m.fk
  let t ← ownerOf m.pk
  if (← get).isLive r then
    if (← table t).cascades then syncMappingOrder r

/-- Map a key column of the parent to a column of the child. In an identifying relationship the
child column joins the child's key. -/
def addMapping [Beyond] (r : RelationshipId) (pk fk : ColumnId) : Edit Unit := do
  let rel ← relationship r
  match rel.parent, rel.child with
  | some parent, some child =>
      discard (requireKeyColumn parent pk)
      let col ← column fk
      if col.table ≠ some child then throw (.columnNotInTable fk child)
      if rel.mapsFrom pk then throw (.duplicateMapping r pk)
      -- a column that is in the key already stays where it is
      let joinKey := rel.identifying && !col.isKey
      let wide ← ask fun s => joinKey && s.hasKeyDependents child
      compoundIf wide "add mapping" (pushMapping r ⟨pk, fk⟩ joinKey)
  | _, _ => throw (.relationshipIncomplete r)

/-- Remove the first mapping of a parent column. The child column stays. -/
def removeMapping (r : RelationshipId) (pk : ColumnId) : Edit (Option Mapping) := do
  let rel ← relationship r
  match rel.mappings.findIdx? (fun m => m.pk = pk), rel.mappingOf? pk with
  | some i, some m =>
      change (Schema.removeMappingAt r m i)
      return some m
  | _, _ => return none

/-- Map one key column of the parent on a live relationship, to the child column of the same name
or to a new one, which is yielded. -/
def mapPrimaryKeyColumn [Beyond] (r : RelationshipId) (pk : ColumnId) : Edit ColumnId := do
  let rel ← relationship r
  if !(← get).isLive r then throw (.relationshipNotLive r)
  let parent ← require rel.parent (.relationshipIncomplete r)
  let key ← requireKeyColumn parent pk
  if rel.mapsFrom pk then throw (.duplicateMapping r pk)
  compound s!"map key column {key.name}" (mapKeyColumn r pk)

/-- Set the ends, register on both sides and, if `auto`, map every key column in key order. -/
def attachSteps [Beyond] (r : RelationshipId) (parent child : TableId) (auto : Bool) :
    Edit Unit := do
  let rel ← relationship r
  if rel.parent ≠ some parent then change (Schema.changeParent r rel.parent (some parent))
  if rel.child ≠ some child then change (Schema.changeChild r rel.child (some child))
  addExportedKey parent r
  addImportedKey child r
  if auto then
    discard (table parent)
    (← get).primaryKey parent |>.forM (mapIfMissing promote r)

/-- Connect a relationship that is neither registered nor mapped to its tables, as one compound
edit and with the child in secondary-change mode meanwhile. -/
def attachRelationship [Beyond] (r : RelationshipId) (parent child : TableId) (auto : Bool) :
    Edit Unit := do
  let rel ← relationship r
  discard (table parent)
  discard (table child)
  if !rel.mappings.isEmpty || (← get).isRegistered r then throw (.relationshipRegistered r)
  refuseCycle r rel.identifying (some parent) (some child)
  within (.compound s!"attach relationship {rel.name}")
    (within (.secondaryChange child) (attachSteps r parent child auto))

/-- Whether the mappings of a relationship follow the key of its parent exactly. -/
def mappingMatchesKey (r : RelationshipId) : Edit Bool := do
  let rel ← relationship r
  let parent ← require rel.parent (.relationshipIncomplete r)
  discard (table parent)
  ask fun s => s.mapsKeyOf rel parent

/-! ## The identifying flag -/

/-- Set the identifying flag. On a live relationship the mapped child columns join the child's key,
or leave it unless another live identifying relationship keeps them in. -/
def setIdentifyingCascade [Beyond] (r : RelationshipId) (identifying : Bool) : Edit Unit := do
  let old := (← relationship r).identifying
  change fun s => s.changeRelationship r fun rel => { rel with identifying }
  raise (.propertyChanged (.relationship r) .identifying (.bool old) (.bool identifying))
  if old ≠ identifying && (← get).isLive r then
    let fks := (← relationship r).mappings.map Mapping.fk
    fks.forM fun fk => do
      let s ← get
      -- an earlier column of the list may have taken this one along
      if s.columns.contains fk then
        if identifying then promote fk
        else if !s.isHeldInKey fk r then setRank promote fk none

/-- How the compound edit around a change of the identifying flag is described. -/
def identifyingDescription : Bool → String
  | true => "make relationship identifying"
  | false => "make relationship non-identifying"

/-- Make a relationship identifying or not. -/
def setIdentifying [Beyond] (r : RelationshipId) (identifying : Bool) : Edit Unit := do
  let rel ← relationship r
  refuseCycle r (identifying && !rel.identifying) rel.parent rel.child
  let wide ← ask fun s => rel.identifying ≠ identifying && s.isLive r && !rel.mappings.isEmpty
  compoundIf wide (identifyingDescription identifying) (setIdentifyingCascade r identifying)

/-! ## Other attributes -/

/-- Change an attribute of a relationship and tell of it, whether or not the value differs. -/
def describeRelationship (r : RelationshipId) (property : Property)
    (value : Relationship → PropertyValue) (f : Relationship → Relationship) : Edit Unit := do
  let old ← relationship r
  change fun s => s.changeRelationship r f
  raise (.propertyChanged (.relationship r) property (value old) (value (f old)))

def setRelationshipName (r : RelationshipId) (name : String) : Edit Unit :=
  describeRelationship r .name (fun rel => .text rel.name) fun rel => { rel with name }

def setRelationshipPhysicalName (r : RelationshipId) (name : Option String) : Edit Unit :=
  describeRelationship r .physicalName (fun rel => .ofText? rel.physicalOverride) fun rel =>
    { rel with physicalOverride := name }

def setParentCardinality (r : RelationshipId) (value : Cardinality) : Edit Unit :=
  describeRelationship r .pkCardinality (fun rel => .cardinality rel.parentCardinality) fun rel =>
    { rel with parentCardinality := value }

def setChildCardinality (r : RelationshipId) (value : Cardinality) : Edit Unit :=
  describeRelationship r .fkCardinality (fun rel => .cardinality rel.childCardinality) fun rel =>
    { rel with childCardinality := value }

def setUpdateRule (r : RelationshipId) (rule : ReferentialAction) : Edit Unit :=
  describeRelationship r .updateRule (fun rel => .rule rel.updateRule) fun rel =>
    { rel with updateRule := rule }

def setDeleteRule (r : RelationshipId) (rule : ReferentialAction) : Edit Unit :=
  describeRelationship r .deleteRule (fun rel => .rule rel.deleteRule) fun rel =>
    { rel with deleteRule := rule }

def setDeferrability (r : RelationshipId) (value : Deferrability) : Edit Unit :=
  describeRelationship r .deferrability (fun rel => .deferrability rel.deferrability) fun rel =>
    { rel with deferrability := value }

end Edit

end KeyedSchema
