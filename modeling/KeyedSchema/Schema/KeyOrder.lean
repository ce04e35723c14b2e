import KeyedSchema.Schema.Edit

/-!
# KeyOrder — key ranks and the order of mappings

The ranks of a key may have gaps and ties. `normalizeKey` numbers them from zero without changing
the order of the key, and brings the mappings of every exported relationship into that order.
-/

namespace KeyedSchema

namespace Schema

/-! ## The order of mappings -/

/-- The rank that orders the mappings of columns outside the key: the largest rank there is. -/
def lastRank : Nat := 4294967295

/-- Where a mapping belongs among the mappings of its relationship. -/
def mappingRank (s : Schema) (m : Mapping) : Nat := (s.rank? m.pk).getD lastRank

/-- Mappings in the order of the ranks of their parent columns, ties in their previous order. -/
def inKeyOrder (s : Schema) (ms : List Mapping) : List Mapping := sortOn s.mappingRank ms

/-- Bring the mappings of a relationship into key order. One event tells of it, if anything
moved. -/
def syncMappingOrder (r : RelationshipId) (s : Schema) : Schema :=
  match s.relationships.get? r with
  | none => s
  | some rel =>
      let ordered := s.inKeyOrder rel.mappings
      if ordered = rel.mappings then s
      else (s.changeRelationship r fun rel => { rel with mappings := ordered }).raise
        (.structureChanged (.relationship r))

/-! ## Ranks -/

/-- Give a column a rank and tell of it. -/
def changeRank (c : ColumnId) (old new : Option Nat) (s : Schema) : Schema :=
  (s.changeColumn c fun col => { col with rank := new }).raise
    (.propertyChanged (.column c) .primaryKeySeq (.ofInt? old) (.ofInt? new))

/-- Give listed key columns the ranks `n`, `n + 1`, and so on; those that have theirs already are
passed over. -/
def renumber (n : Nat) : List (ColumnId × Nat) → Schema → Schema
  | [], s => s
  | (c, rank) :: rest, s =>
      renumber (n + 1) rest (if rank = n then s else s.changeRank c (some rank) (some n))

/-- The key columns of a table in the order in which they are numbered: by rank, and of those with
the same rank `placed` first, the others in display order. -/
def keyOrder (s : Schema) (t : TableId) (placed : Option ColumnId) : List (ColumnId × Nat) :=
  sortOn (fun (c, rank) => 2 * rank + if some c = placed then 0 else 1) (s.keyRanks t)

end Schema

namespace Edit

/-- Bring the mappings of a relationship into key order. -/
def syncMappingOrder (r : RelationshipId) : Edit Unit := do
  discard (relationship r)
  change (Schema.syncMappingOrder r)

/-- Number the key of a table from zero, then bring the mappings of the relationships it exports
into key order, one by one. -/
def normalizeKey (t : TableId) (placed : Option ColumnId) : Edit Unit := do
  discard (table t)
  change fun s => Schema.renumber 0 (s.keyOrder t placed) s
  (← ask fun s => s.exportsOf t).forM syncMappingOrder

/-- The foreign-key columns that follow a column. -/
def followers (c : ColumnId) : Edit (List ColumnId) := do
  let col ← column c
  match col.table with
  | none => return []
  | some t =>
      if col.isKey then
        discard (table t)
        ask fun s => s.followers c
      else return []

end Edit

end KeyedSchema
