import KeyedSchema.Schema.Removal

/-!
# Promotion — columns that join or leave a key

When a column joins the key of a table whose cascades are enabled, every live relationship that
the table exports maps it: to a child column of the same name, or to a new one. An identifying
relationship then *promotes* the child column into the child's own key, and so on down.

Promotions follow live identifying relationships from table to table. Those never go in a circle,
so no chain of promotions is longer than the number of tables.

When a column leaves the key, its mappings go, and with them the child columns that nothing else
maps.
-/

namespace KeyedSchema

namespace Schema

/-- The column that a relationship adopts for a key column: the first child column of the same
name that the relationship does not map yet. -/
def adoptable? (s : Schema) (rel : Relationship) (child : TableId) (pk : ColumnId)
    (name : String) : Option ColumnId :=
  (s.columnsOf child).find? fun c =>
    c ≠ pk && !rel.mapsTo c && !rel.mapsFrom c && (s.columns.get? c).any fun col => col.name == name

/-- Where a new key column goes: just after the last key column, in front without one. -/
def keyInsertPosition (s : Schema) (t : TableId) : Nat :=
  ((s.columnsOf t).zipIdx.filter fun (c, _) => s.isKey c).foldl (fun _ (_, i) => i + 1) 0

/-- The rank after the last one of a table's key. Ranks are 32-bit numbers, so after the last rank
there is it starts over at zero: the column is then in front of the key, or tied for it. A build that
checks its arithmetic stops there instead, with nothing told of the new rank. -/
def nextRank (s : Schema) (t : TableId) : Nat :=
  (s.keyRanks t).foldl (fun next (_, rank) => max next (rank + 1)) 0 % (lastRank + 1)

/-- The identifier that the next new column gets. -/
def nextColumn (s : Schema) : ColumnId := ⟨s.lastColumn + 1⟩

/-- Put a new column into a table, without regard to its rank. -/
def placeColumn (t : TableId) (i : Nat) (col : Column) (s : Schema) : Schema :=
  let c := s.nextColumn
  let joined := { col with table := some t }
  { s.changeTable t fun tbl => { tbl with columns := tbl.columns.insertIdx i c } with
    columns := s.columns.insert c joined
    origins := s.origins.insert c joined
    lastColumn := s.lastColumn + 1 }.raise (.childInserted (.table t) (.column c) i)

/-- Put a mapping at the end of a relationship's mappings. -/
def appendMapping (r : RelationshipId) (m : Mapping) (s : Schema) : Schema :=
  let i := (s.relationships.get? r).elim 0 fun rel => rel.mappings.length
  (s.changeRelationship r fun rel => { rel with mappings := rel.mappings ++ [m] }).raise
    (.childInserted (.relationship r) (.mapping m) i)

end Schema

namespace Edit

/-- Put a new column into a table, without regard to its rank. -/
def placeColumn (t : TableId) (i : Nat) (col : Column) : Edit ColumnId := do
  let c ← ask Schema.nextColumn
  discard (table t)
  change (Schema.placeColumn t i col)
  return c

/-! ## Rules on top of a rule for promotion -/

/-- Map a key column in a live relationship: adopt the child column of the same name, or make one.
The types of the two columns are not compared. -/
def adoptOrCreate (promote : ColumnId → Edit Unit) (r : RelationshipId) (pk : ColumnId) :
    Edit ColumnId := do
  let rel ← relationship r
  let child ← require rel.child (.relationshipIncomplete r)
  let key ← column pk
  discard (table child)
  let s ← get
  let fk ←
    match s.adoptable? rel child pk key.name with
    | some c => pure c
    | none =>
        -- a column that is to join the key goes next to it, any other one to the end
        let i := if rel.identifying then s.keyInsertPosition child else (s.columnsOf child).length
        placeColumn child i (Column.derivedFrom key)
  change (Schema.appendMapping r ⟨pk, fk⟩)
  if rel.identifying then promote fk
  syncMappingOrder r
  return fk

/-- Map a key column in a relationship unless it is mapped already. -/
def mapIfMissing (promote : ColumnId → Edit Unit) (r : RelationshipId) (pk : ColumnId) :
    Edit Unit := do
  if ((← relationship r).mappingOf? pk).isNone then discard (adoptOrCreate promote r pk)

/-- Take the mapping of a former key column out of a relationship, and the child column with it
if nothing else maps it. -/
def unmapDemoted [Beyond] (r : RelationshipId) (pk : ColumnId) : Edit Unit := do
  let rel ← relationship r
  match rel.mappings.findIdx? (fun m => m.pk = pk), rel.mappingOf? pk with
  | some i, some m =>
      change (Schema.removeMappingAt r m i)
      removeOrphan m.fk
  | _, _ => pure ()

/-- Bring the schema in line with a column's new rank. -/
def afterRankChange [Beyond] (promote : ColumnId → Edit Unit) (c : ColumnId)
    (old new : Option Nat) : Edit Unit := do
  let t ← ownerOf c
  if (← table t).cascades then
    normalizeKey t (new.map fun _ => c)
    let exports ← ask fun s => s.liveExportsOf t
    match old, new with
    | none, some _ => exports.forM fun r => mapIfMissing promote r c
    | some _, none => exports.forM fun r => unmapDemoted r c
    -- a column that moves within the key keeps its mappings
    | _, _ => pure ()

/-- Give a column a rank, or take it out of the key. -/
def setRank [Beyond] (promote : ColumnId → Edit Unit) (c : ColumnId) (rank : Option Nat) :
    Edit Unit := do
  let old := (← column c).rank
  if old ≠ rank then
    change (Schema.changeRank c old rank)
    afterRankChange promote c old rank

/-! ## Promotion -/

/-- Put a column at the end of its table's key unless it is in it, with at most `depth` nested
promotions. -/
def promoteWithin [Beyond] : Nat → ColumnId → Edit Unit
  | 0, c => Beyond.promote c
  | depth + 1, c => do
      if !(← column c).isKey then
        let t ← ownerOf c
        discard (table t)
        let rank ← ask fun s => s.nextRank t
        setRank (promoteWithin depth) c (some rank)

/-- Put a column at the end of its table's key unless it is in it. -/
def promote [Beyond] (c : ColumnId) : Edit Unit := do promoteWithin (← get).tables.size c

/-- Map a key column in a live relationship. -/
def mapKeyColumn [Beyond] (r : RelationshipId) (pk : ColumnId) : Edit ColumnId :=
  adoptOrCreate promote r pk

/-- Put a column into a table; one with a rank joins the key. -/
def insertColumnAt [Beyond] (t : TableId) (i : Nat) (col : Column) : Edit ColumnId := do
  let c ← placeColumn t i col
  if col.isKey then afterRankChange promote c none col.rank
  return c

end Edit

end KeyedSchema
