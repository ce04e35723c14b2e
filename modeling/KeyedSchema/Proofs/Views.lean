import KeyedSchema.Proofs.Roster
import KeyedSchema.Schema.CatchUp
import KeyedSchema.Schema.Tables

/-!
# Views — what can be seen of a schema, and what each change leaves alone

The questions of `Schema.Basic` depend on three rosters. Events touch none of them, so everything
seen of a schema is the same before and after an event is told.

A **frame** is what cascades never touch: of a table everything but its columns, of a relationship
everything but its mappings. Two schemas with the same frame agree on registrations, on ends, on
switches, and so on which relationships are live.
-/

namespace KeyedSchema

namespace Schema

variable {s s' s'' : Schema} {t t' : TableId} {c : ColumnId} {r r' : RelationshipId}

/-! ## Ends and mappings -/

/-- The parent of a relationship. -/
def parent? (s : Schema) (r : RelationshipId) : Option TableId :=
  (s.relationships.get? r).bind Relationship.parent

/-- The child of a relationship. -/
def child? (s : Schema) (r : RelationshipId) : Option TableId :=
  (s.relationships.get? r).bind Relationship.child

/-- The mappings of a relationship. -/
def mappingsOf (s : Schema) (r : RelationshipId) : List Mapping :=
  (s.relationships.get? r).elim [] Relationship.mappings

/-- Whether a relationship is identifying. -/
def isIdentifying (s : Schema) (r : RelationshipId) : Bool :=
  (s.relationships.get? r).any Relationship.identifying

/-- Whether a column of the given name is stored. -/
def IsNamed (name : String) (s : Schema) (c : ColumnId) : Prop :=
  ∃ col, s.columns.get? c = some col ∧ col.name = name

theorem mem_exportsOf : r ∈ s.exportsOf t ↔
    ∃ tbl, s.tables.get? t = some tbl ∧ r ∈ tbl.exportedKeys := by
  unfold exportsOf
  cases s.tables.get? t <;> simp

theorem mem_importsOf : r ∈ s.importsOf t ↔
    ∃ tbl, s.tables.get? t = some tbl ∧ r ∈ tbl.importedKeys := by
  unfold importsOf
  cases s.tables.get? t <;> simp

theorem mem_columnsOf : c ∈ s.columnsOf t ↔
    ∃ tbl, s.tables.get? t = some tbl ∧ c ∈ tbl.columns := by
  unfold columnsOf
  cases s.tables.get? t <;> simp

theorem mem_mappingsOf {m : Mapping} : m ∈ s.mappingsOf r ↔
    ∃ rel, s.relationships.get? r = some rel ∧ m ∈ rel.mappings := by
  unfold mappingsOf
  cases s.relationships.get? r <;> simp

theorem isLive_iff : s.isLive r = true ↔ ∃ p ch, s.parent? r = some p ∧ s.child? r = some ch ∧
    r ∈ s.exportsOf p ∧ r ∈ s.importsOf ch := by
  unfold isLive parent? child?
  cases s.relationships.get? r with
  | none => simp
  | some rel =>
      cases hp : rel.parent <;> cases hc : rel.child <;> simp [hp, hc]

theorem mem_liveExportsOf : r ∈ s.liveExportsOf t ↔ r ∈ s.exportsOf t ∧ s.isLive r = true := by
  simp [liveExportsOf]

theorem mapsFrom_iff {rel : Relationship} :
    rel.mapsFrom c = true ↔ ∃ m ∈ rel.mappings, m.pk = c := by
  simp [Relationship.mapsFrom]

theorem mapsTo_iff {rel : Relationship} :
    rel.mapsTo c = true ↔ ∃ m ∈ rel.mappings, m.fk = c := by
  simp [Relationship.mapsTo]

theorem owner?_of_get? {col : Column} (h : s.columns.get? c = some col) :
    s.owner? c = col.table := by
  simp [owner?, h]

theorem rank?_of_get? {col : Column} (h : s.columns.get? c = some col) :
    s.rank? c = col.rank := by
  simp [rank?, h]

theorem isKey_of_get? {col : Column} (h : s.columns.get? c = some col) :
    s.isKey c = col.isKey := by
  simp [isKey, Column.isKey, rank?_of_get? h]

theorem isKey_iff : s.isKey c = true ↔ ∃ k, s.rank? c = some k := by
  simp [isKey, Option.isSome_iff_exists]

theorem isKey_congr {c' : ColumnId} (h : s'.rank? c' = s.rank? c) : s'.isKey c' = s.isKey c :=
  congrArg Option.isSome h

theorem rank?_of_columns (h : s'.columns = s.columns) (c : ColumnId) : s'.rank? c = s.rank? c := by
  unfold rank?
  rw [h]

theorem isKey_of_columns (h : s'.columns = s.columns) (c : ColumnId) : s'.isKey c = s.isKey c :=
  isKey_congr (rank?_of_columns h c)

theorem contains_of_owner? (h : s.owner? c = some t) : s.columns.contains c = true := by
  unfold owner? at h
  obtain ⟨col, hcol, -⟩ := Option.bind_eq_some_iff.mp h
  exact Roster.contains_of_get? hcol

theorem contains_of_isKey (h : s.isKey c = true) : s.columns.contains c = true := by
  obtain ⟨k, hk⟩ := isKey_iff.mp h
  obtain ⟨col, hcol, -⟩ := Option.bind_eq_some_iff.mp hk
  exact Roster.contains_of_get? hcol

theorem contains_of_parent? (h : s.parent? r = some t) : s.relationships.contains r = true := by
  obtain ⟨rel, hrel, -⟩ := Option.bind_eq_some_iff.mp h
  exact Roster.contains_of_get? hrel

theorem contains_of_child? (h : s.child? r = some t) : s.relationships.contains r = true := by
  obtain ⟨rel, hrel, -⟩ := Option.bind_eq_some_iff.mp h
  exact Roster.contains_of_get? hrel

/-- Which columns follow a column hangs on tables and relationships, and of the columns only on its
own owner and rank. -/
theorem followers_congr (htables : s'.tables = s.tables)
    (hrelationships : s'.relationships = s.relationships) (howner : s'.owner? c = s.owner? c)
    (hrank : s'.rank? c = s.rank? c) : s'.followers c = s.followers c := by
  unfold followers isKey cascades liveExportsOf isLive exportsOf importsOf
  simp only [htables, hrelationships, howner, hrank]

/-! ## Events change no object -/

@[simp] theorem raise_objects (e : Event) (s : Schema) :
    (s.raise e).config = s.config ∧ (s.raise e).tables = s.tables ∧
      (s.raise e).columns = s.columns ∧ (s.raise e).relationships = s.relationships ∧
      (s.raise e).lastTable = s.lastTable ∧ (s.raise e).lastColumn = s.lastColumn ∧
      (s.raise e).lastRelationship = s.lastRelationship := by
  unfold raise
  split <;> simp

@[simp] theorem raiseAll_objects (es : List Event) (s : Schema) :
    (s.raiseAll es).config = s.config ∧ (s.raiseAll es).tables = s.tables ∧
      (s.raiseAll es).columns = s.columns ∧ (s.raiseAll es).relationships = s.relationships ∧
      (s.raiseAll es).lastTable = s.lastTable ∧ (s.raiseAll es).lastColumn = s.lastColumn ∧
      (s.raiseAll es).lastRelationship = s.lastRelationship := by
  unfold raiseAll
  induction es generalizing s with
  | nil => simp
  | cons e es ih => simp [ih]

/-- Whether two schemas have the same objects, however many events they have told. -/
structure SameObjects (s s' : Schema) : Prop where
  config : s'.config = s.config
  tables : s'.tables = s.tables
  columns : s'.columns = s.columns
  relationships : s'.relationships = s.relationships
  lastTable : s'.lastTable = s.lastTable
  lastColumn : s'.lastColumn = s.lastColumn
  lastRelationship : s'.lastRelationship = s.lastRelationship

namespace SameObjects

@[refl] theorem refl (s : Schema) : SameObjects s s := ⟨rfl, rfl, rfl, rfl, rfl, rfl, rfl⟩

theorem symm (h : SameObjects s s') : SameObjects s' s :=
  ⟨h.config.symm, h.tables.symm, h.columns.symm, h.relationships.symm, h.lastTable.symm,
    h.lastColumn.symm, h.lastRelationship.symm⟩

theorem trans (h : SameObjects s s') (h' : SameObjects s' s'') : SameObjects s s'' :=
  ⟨h'.config.trans h.config, h'.tables.trans h.tables, h'.columns.trans h.columns,
    h'.relationships.trans h.relationships, h'.lastTable.trans h.lastTable,
    h'.lastColumn.trans h.lastColumn, h'.lastRelationship.trans h.lastRelationship⟩

theorem raise (e : Event) (s : Schema) : SameObjects s (s.raise e) := by
  constructor <;> simp

theorem raiseAll (es : List Event) (s : Schema) : SameObjects s (s.raiseAll es) := by
  constructor <;> simp

theorem signal (e : Event) (s : Schema) : SameObjects s (s.signal e) :=
  ⟨rfl, rfl, rfl, rfl, rfl, rfl, rfl⟩

theorem release (t : TableId) (s : Schema) : SameObjects s (s.release t) :=
  ⟨rfl, rfl, rfl, rfl, rfl, rfl, rfl⟩

theorem forget (t : TableId) (s : Schema) : SameObjects s (s.forget t) :=
  ⟨rfl, rfl, rfl, rfl, rfl, rfl, rfl⟩

/-- A schema with the same objects is the same schema up to what it has told. -/
theorem exists_eq (h : SameObjects s s') :
    ∃ held raised published origins, s' = { s with held, raised, published, origins } := by
  refine ⟨s'.held, s'.raised, s'.published, s'.origins, ?_⟩
  obtain ⟨h₁, h₂, h₃, h₄, h₅, h₆, h₇⟩ := h
  cases s
  cases s'
  simp_all

end SameObjects

end Schema

/-! ## Frames -/

/-- A table without its columns. -/
def Table.frame (tbl : Table) : Table := { tbl with columns := [] }

/-- A relationship without its mappings. -/
def Relationship.frame (rel : Relationship) : Relationship := { rel with mappings := [] }

namespace Schema

variable {s s' s'' : Schema} {t t' : TableId} {c : ColumnId} {r r' : RelationshipId}

/-- Whether two schemas differ at most in columns and mappings. -/
structure SameFrame (s s' : Schema) : Prop where
  config : s'.config = s.config
  tables : s'.tables.map Table.frame = s.tables.map Table.frame
  relationships : s'.relationships.map Relationship.frame = s.relationships.map Relationship.frame
  lastTable : s'.lastTable = s.lastTable
  lastRelationship : s'.lastRelationship = s.lastRelationship

namespace SameFrame

@[refl] theorem refl (s : Schema) : SameFrame s s := ⟨rfl, rfl, rfl, rfl, rfl⟩

theorem symm (h : SameFrame s s') : SameFrame s' s :=
  ⟨h.config.symm, h.tables.symm, h.relationships.symm, h.lastTable.symm, h.lastRelationship.symm⟩

theorem trans (h : SameFrame s s') (h' : SameFrame s' s'') : SameFrame s s'' :=
  ⟨h'.config.trans h.config, h'.tables.trans h.tables, h'.relationships.trans h.relationships,
    h'.lastTable.trans h.lastTable, h'.lastRelationship.trans h.lastRelationship⟩

theorem get?_table (h : SameFrame s s') (t : TableId) :
    (s'.tables.get? t).map Table.frame = (s.tables.get? t).map Table.frame := by
  rw [← Roster.get?_map, h.tables, Roster.get?_map]

theorem get?_relationship (h : SameFrame s s') (r : RelationshipId) :
    (s'.relationships.get? r).map Relationship.frame =
      (s.relationships.get? r).map Relationship.frame := by
  rw [← Roster.get?_map, h.relationships, Roster.get?_map]

theorem keys_tables (h : SameFrame s s') : s'.tables.keys = s.tables.keys := by
  rw [← Roster.keys_map Table.frame, h.tables, Roster.keys_map]

theorem keys_relationships (h : SameFrame s s') :
    s'.relationships.keys = s.relationships.keys := by
  rw [← Roster.keys_map Relationship.frame, h.relationships, Roster.keys_map]

theorem size_tables (h : SameFrame s s') : s'.tables.size = s.tables.size := by
  rw [Roster.size_eq_length_keys, h.keys_tables, ← Roster.size_eq_length_keys]

theorem contains_table (h : SameFrame s s') (t : TableId) :
    s'.tables.contains t = s.tables.contains t := by
  have := congrArg Option.isSome (h.get?_table t)
  simpa [Roster.contains] using this

theorem contains_relationship (h : SameFrame s s') (r : RelationshipId) :
    s'.relationships.contains r = s.relationships.contains r := by
  have := congrArg Option.isSome (h.get?_relationship r)
  simpa [Roster.contains] using this

/-- What is read off the frame of a table is the same in both schemas. -/
theorem read_table {β : Type} (h : SameFrame s s') (g : Option Table → β)
    (hg : ∀ o, g (o.map Table.frame) = g o) (t : TableId) :
    g (s'.tables.get? t) = g (s.tables.get? t) := by
  rw [← hg, h.get?_table, hg]

/-- What is read off the frame of a relationship is the same in both schemas. -/
theorem read_relationship {β : Type} (h : SameFrame s s') (g : Option Relationship → β)
    (hg : ∀ o, g (o.map Relationship.frame) = g o) (r : RelationshipId) :
    g (s'.relationships.get? r) = g (s.relationships.get? r) := by
  rw [← hg, h.get?_relationship, hg]

theorem exportsOf (h : SameFrame s s') (t : TableId) : s'.exportsOf t = s.exportsOf t :=
  h.read_table (Option.elim · [] Table.exportedKeys) (fun o => by cases o <;> rfl) t

theorem importsOf (h : SameFrame s s') (t : TableId) : s'.importsOf t = s.importsOf t :=
  h.read_table (Option.elim · [] Table.importedKeys) (fun o => by cases o <;> rfl) t

theorem cascades (h : SameFrame s s') (t : TableId) : s'.cascades t = s.cascades t :=
  h.read_table (Option.any Table.cascades) (fun o => by cases o <;> rfl) t

theorem parent? (h : SameFrame s s') (r : RelationshipId) : s'.parent? r = s.parent? r :=
  h.read_relationship (Option.bind · Relationship.parent) (fun o => by cases o <;> rfl) r

theorem child? (h : SameFrame s s') (r : RelationshipId) : s'.child? r = s.child? r :=
  h.read_relationship (Option.bind · Relationship.child) (fun o => by cases o <;> rfl) r

theorem isIdentifying (h : SameFrame s s') (r : RelationshipId) :
    s'.isIdentifying r = s.isIdentifying r :=
  h.read_relationship (Option.any Relationship.identifying) (fun o => by cases o <;> rfl) r

theorem isLive (h : SameFrame s s') (r : RelationshipId) : s'.isLive r = s.isLive r := by
  rw [Bool.eq_iff_iff]
  simp only [isLive_iff, h.parent?, h.child?, h.exportsOf, h.importsOf]

theorem liveExportsOf (h : SameFrame s s') (t : TableId) :
    s'.liveExportsOf t = s.liveExportsOf t := by
  unfold Schema.liveExportsOf
  rw [h.exportsOf, funext h.isLive]

end SameFrame

theorem SameObjects.sameFrame (h : SameObjects s s') : SameFrame s s' :=
  ⟨h.config, by rw [h.tables], by rw [h.relationships], h.lastTable, h.lastRelationship⟩

end Schema

end KeyedSchema
