import KeyedSchema.Schema.Beyond
import KeyedSchema.Schema.KeyOrder

/-!
# Removal — taking columns and relationships out, and what depends on them

A column that leaves takes every mapping that refers to it along. Foreign-key columns that lose
their last live mapping in this way are *orphans* and leave too, by the same rule.

Every nested removal takes one column out of the schema, so the nesting is bounded by the number
of columns: with no column left, any further one is unknown.
-/

namespace KeyedSchema

namespace Schema

/-! ## Taking mappings out -/

/-- The mappings that satisfy `p`, each with the place it has once the earlier ones are gone. -/
def removals (p : Mapping → Bool) : Nat → List Mapping → List (Nat × Mapping)
  | _, [] => []
  | i, m :: ms => if p m then (i, m) :: removals p i ms else removals p (i + 1) ms

/-- Take the mappings that satisfy `p` out of a relationship, first to last. -/
def unmapWhere (p : Mapping → Bool) (r : RelationshipId) (s : Schema) : Schema :=
  match s.relationships.get? r with
  | none => s
  | some rel =>
      (s.changeRelationship r fun rel =>
          { rel with mappings := rel.mappings.filter fun m => !p m }).raiseAll
        ((removals p 0 rel.mappings).map fun (i, m) =>
          .childRemoved (.relationship r) (.mapping m) i)

/-- Take all mappings out of a relationship, last to first. -/
def clearMappings (r : RelationshipId) (s : Schema) : Schema :=
  match s.relationships.get? r with
  | none => s
  | some rel =>
      (s.changeRelationship r fun rel => { rel with mappings := [] }).raiseAll
        (rel.mappings.zipIdx.reverse.map fun (m, i) =>
          .childRemoved (.relationship r) (.mapping m) i)

/-- Take one mapping out of a relationship. -/
def removeMappingAt (r : RelationshipId) (m : Mapping) (i : Nat) (s : Schema) : Schema :=
  (s.changeRelationship r fun rel => { rel with mappings := rel.mappings.eraseIdx i }).raise
    (.childRemoved (.relationship r) (.mapping m) i)

/-! ## Taking registrations out -/

/-- Remove a relationship from the exported keys of its parent, if it is there. -/
def deregisterExported (r : RelationshipId) (s : Schema) : Schema :=
  match (s.relationships.get? r).bind Relationship.parent with
  | none => s
  | some t =>
      match (s.exportsOf t).idxOf? r with
      | none => s
      | some i =>
          (s.changeTable t fun tbl => { tbl with exportedKeys := tbl.exportedKeys.eraseIdx i }).raise
            (.childRemoved (.table t) (.exportedKey r) i)

/-- Remove a relationship from the imported keys of its child, if it is there. -/
def deregisterImported (r : RelationshipId) (s : Schema) : Schema :=
  match (s.relationships.get? r).bind Relationship.child with
  | none => s
  | some t =>
      match (s.importsOf t).idxOf? r with
      | none => s
      | some i =>
          (s.changeTable t fun tbl => { tbl with importedKeys := tbl.importedKeys.eraseIdx i }).raise
            (.childRemoved (.table t) (.importedKey r) i)

/-! ## Taking one column out -/

/-- The relationships that have the column in a mapping, on either side. -/
def mappersOf (s : Schema) (c : ColumnId) : List RelationshipId :=
  s.relationships.keysWhere fun _ rel => rel.mapsFrom c || rel.mapsTo c

/-- The child columns that live relationships map a column to; they may be orphans without it. -/
def dependentsOf (s : Schema) (c : ColumnId) : List ColumnId :=
  distinct (((s.mappersOf c).filter s.isLive).flatMap fun r =>
    (s.relationships.get? r).elim [] fun rel =>
      (rel.mappings.filter fun m => m.pk = c).map Mapping.fk)

/-- Take a column out of its table and out of the schema. -/
def dropColumn (t : TableId) (i : Nat) (c : ColumnId) (s : Schema) : Schema :=
  { s.changeTable t fun tbl => { tbl with columns := tbl.columns.eraseIdx i } with
    columns := s.columns.erase c }.raise (.childRemoved (.table t) (.column c) i)

/-- Take out every mapping that has the column on either side. -/
def unmapColumn (c : ColumnId) (s : Schema) : Schema :=
  (s.mappersOf c).foldl (fun s r => s.unmapWhere (fun m => m.pk = c || m.fk = c) r) s

end Schema

namespace Edit

/-! ## Columns and their orphans -/

/-- Remove a column by `remove`, unless it is gone or a live relationship still maps it. -/
def removeIfOrphaned (remove : ColumnId → Edit Column) (c : ColumnId) : Edit Unit := do
  let s ← get
  if s.columns.contains c && !s.isRetained c then discard (remove c)

/-- Remove a column and everything that depended on it, with at most `depth` nested removals:
first the column, then the mappings that refer to it, then the orphans, and last the table's key
is renumbered. -/
def removeColumnWithin [Beyond] : Nat → ColumnId → Edit Column
  | 0, c => Beyond.remove c
  | depth + 1, c => do
      let t ← ownerOf c
      let i ← require ((← table t).columns.idxOf? c) (.columnNotInTable c t)
      let removed ← column c
      change (Schema.dropColumn t i c)
      -- the mappings of `c` tell what depends on it, so this is asked while they are there
      let orphans ← ask fun s => s.dependentsOf c
      change (Schema.unmapColumn c)
      -- with those mappings gone, each check counts the ones that are left
      orphans.forM (removeIfOrphaned (removeColumnWithin depth))
      if removed.isKey then
        if (← table t).cascades then normalizeKey t none
      return { removed with table := none }

/-- Remove a column and everything that depended on it. -/
def removeColumnCascade [Beyond] (c : ColumnId) : Edit Column := do
  removeColumnWithin ((← get).columns.size + 1) c

/-- Remove a column, and what depended on it, unless a live relationship still maps it. -/
def removeOrphan [Beyond] (c : ColumnId) : Edit Unit := removeIfOrphaned removeColumnCascade c

/-! ## Relationships -/

/-- Take a relationship out of the schema, as it stands. -/
def eraseRelationship (r : RelationshipId) : Edit Relationship := do
  let rel ← relationship r
  change fun s => { s with relationships := s.relationships.erase r }
  return rel

/-- Take a live relationship out of both tables and out of the schema, then remove the child
columns that only it mapped. -/
def detachCascade [Beyond] (r : RelationshipId) : Edit Relationship := do
  if !(← get).isLive r then throw (.relationshipNotLive r)
  change (Schema.deregisterExported r)
  change (Schema.deregisterImported r)
  let fks := (← relationship r).mappings.map Mapping.fk
  change (Schema.clearMappings r)
  -- each child column once, where it comes last
  (distinct fks.reverse).reverse.forM removeOrphan
  eraseRelationship r

/-- Take a relationship that is not live out of the schema: no column is touched. -/
def discardRelationship (r : RelationshipId) : Edit Relationship := do
  discard (relationship r)
  change (Schema.deregisterExported r)
  change (Schema.deregisterImported r)
  change (Schema.clearMappings r)
  eraseRelationship r

end Edit

end KeyedSchema
