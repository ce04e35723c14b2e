import KeyedSchema.Schema.Promotion

/-!
# CatchUp — leaving secondary-change mode

While a table is in secondary-change mode its key may drift away from the mappings of the
relationships it exports. When the mode is left, the held events are published and, if the table's
magic is on, the mappings are *reconciled* with the key: the key is numbered, mappings of columns
that left it are dropped, and key columns without a mapping get one.
-/

namespace KeyedSchema

namespace Schema

/-- Whether the key of a table has gaps or ties in its ranks, or a live relationship that the table
exports does not follow the key. -/
def needsReconcile (s : Schema) (t : TableId) : Bool :=
  let key := s.primaryKey t
  (key.zipIdx.any fun (c, i) => s.rank? c ≠ some i) ||
    (s.liveExportsOf t).any fun r =>
      (s.relationships.get? r).any fun rel => rel.mappings.map Mapping.pk ≠ key

/-- Switch a table's secondary-change mode, without publishing anything. -/
def setSecondaryChange (t : TableId) (on : Bool) (s : Schema) : Schema :=
  s.changeTable t fun tbl => { tbl with inSecondaryChange := on }

end Schema

namespace Edit

/-- Drop the mappings of a relationship whose parent column is not in `key`, and the child columns
that nothing else maps. Each round but the last drops one, so one round more than there are
mappings is enough. -/
def dropStrayMappings [Beyond] (r : RelationshipId) (key : List ColumnId) : Nat → Edit Unit
  | 0 => Beyond.round r
  | rounds + 1 => do
      let rel ← relationship r
      match rel.mappings.findIdx? (fun m => m.pk ∉ key), rel.mappings.find? (fun m => m.pk ∉ key) with
      | some i, some m =>
          change (Schema.removeMappingAt r m i)
          removeOrphan m.fk
          -- the orphan may have taken mappings along, so the list is read anew
          dropStrayMappings r key rounds
      | _, _ => pure ()

/-- Bring one relationship in line with the key of its parent. -/
def reconcileRelationship [Beyond] (key : List ColumnId) (r : RelationshipId) : Edit Unit := do
  dropStrayMappings r key ((← relationship r).mappings.length + 1)
  key.forM (mapIfMissing promote r)
  syncMappingOrder r

/-- Number a table's key and bring every live relationship the table exports in line with it. -/
def reconcileExported [Beyond] (t : TableId) : Edit Unit := do
  discard (table t)
  normalizeKey t none
  let s ← get
  (s.liveExportsOf t).forM (reconcileRelationship (s.primaryKey t))

/-- Put a table into secondary-change mode; the answer says whether it was outside. -/
def enterSecondaryChange (t : TableId) : Edit Bool := do
  if (← table t).inSecondaryChange then return false
  change (Schema.setSecondaryChange t true)
  return true

/-- Leave secondary-change mode: publish what was held back, then catch up. Of a table that is
gone, the held events are dropped. -/
def exitSecondaryChange [Beyond] (t : TableId) : Edit Unit := do
  match (← get).tables.get? t with
  | none => change (Schema.forget t)
  | some tbl =>
      change (Schema.setSecondaryChange t false)
      change (Schema.release t)
      -- what was held back is told before catching up tells anything
      if tbl.magicEnabled then
        if (← get).needsReconcile t then
          compound s!"update keys exported by {tbl.name}" (reconcileExported t)

end Edit

end KeyedSchema
