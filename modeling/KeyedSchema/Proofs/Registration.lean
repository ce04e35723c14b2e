import KeyedSchema.Proofs.Cut
import KeyedSchema.Schema.Relationships

/-!
# Registration — how relationships come, connect and go

A change `Reregisters` if it touches nothing but the lists of exported and imported keys; such a
change keeps a schema sound as long as relationships stay registered with their own ends. On top of
that, `unlink r` takes a relationship out of both lists and clears its mappings, after which
nothing refers to it any more and it can be taken out of the schema.
-/

namespace KeyedSchema

/-- The two switches of a table that its cascades depend on. -/
def Table.switches (tbl : Table) : Bool × Bool := (tbl.magicEnabled, tbl.inSecondaryChange)

namespace Schema

variable {s s' s'' : Schema} {t t' : TableId} {c : ColumnId} {r r' : RelationshipId}

/-- The switches of a table. -/
def switchesOf (s : Schema) (t : TableId) : Option (Bool × Bool) :=
  (s.tables.get? t).map Table.switches

theorem SameFrame.switchesOf (h : SameFrame s s') (t : TableId) : s'.switchesOf t = s.switchesOf t :=
  h.read_table (Option.map Table.switches) (fun o => by cases o <;> rfl) t

theorem cascades_of_switchesOf (h : s'.switchesOf t = s.switchesOf t) :
    s'.cascades t = s.cascades t := by
  unfold switchesOf at h
  unfold cascades
  cases h₁ : s'.tables.get? t <;> cases h₂ : s.tables.get? t <;>
    simp_all [Table.switches, Table.cascades]

/-! ## Lists of one table -/

/-- A list of a table after one table has changed. -/
theorem elim_changeTable {α : Type} {f : Table → Table} {list : Table → List α}
    (h : SameObjects (s.changeTable t f) s') (t' : TableId) :
    (s'.tables.get? t').elim [] list =
      if t' = t then (s.tables.get? t).elim [] (fun tbl => list (f tbl))
      else (s.tables.get? t').elim [] list := by
  rw [h.tables]
  by_cases heq : t' = t
  · cases ht : s.tables.get? t <;> simp [changeTable, heq, ht]
  · simp [changeTable, heq]

/-- A list that the change leaves alone is as it was. -/
theorem elim_of_changeTable {α : Type} {f : Table → Table} {list : Table → List α}
    (h : SameObjects (s.changeTable t f) s') (hf : ∀ tbl, list (f tbl) = list tbl) (t' : TableId) :
    (s'.tables.get? t').elim [] list = (s.tables.get? t').elim [] list := by
  rw [elim_changeTable h]
  split
  · rename_i heq
    rw [heq, funext hf]
  · rfl

/-! ## Changes of registrations -/

/-- Whether two schemas differ at most in which relationships their tables have registered. -/
structure Reregisters (s s' : Schema) : Prop where
  config : s'.config = s.config
  tableKeys : s'.tables.keys = s.tables.keys
  columns : s'.columns = s.columns
  relationships : s'.relationships = s.relationships
  columnsOf : ∀ t, s'.columnsOf t = s.columnsOf t
  switchesOf : ∀ t, s'.switchesOf t = s.switchesOf t
  lastTable : s'.lastTable = s.lastTable
  lastColumn : s'.lastColumn = s.lastColumn
  lastRelationship : s'.lastRelationship = s.lastRelationship

namespace Reregisters

@[refl] theorem refl (s : Schema) : Reregisters s s :=
  ⟨rfl, rfl, rfl, rfl, fun _ => rfl, fun _ => rfl, rfl, rfl, rfl⟩

theorem trans (h : Reregisters s s') (h' : Reregisters s' s'') : Reregisters s s'' :=
  ⟨h'.config.trans h.config, h'.tableKeys.trans h.tableKeys, h'.columns.trans h.columns,
    h'.relationships.trans h.relationships, fun t => (h'.columnsOf t).trans (h.columnsOf t),
    fun t => (h'.switchesOf t).trans (h.switchesOf t), h'.lastTable.trans h.lastTable,
    h'.lastColumn.trans h.lastColumn, h'.lastRelationship.trans h.lastRelationship⟩

theorem contains_table (h : Reregisters s s') (t : TableId) :
    s'.tables.contains t = s.tables.contains t := by
  rw [Bool.eq_iff_iff, ← Roster.mem_keys_iff, ← Roster.mem_keys_iff, h.tableKeys]

theorem cascades (h : Reregisters s s') (t : TableId) : s'.cascades t = s.cascades t :=
  cascades_of_switchesOf (h.switchesOf t)

theorem owner? (h : Reregisters s s') (c : ColumnId) : s'.owner? c = s.owner? c := by
  unfold Schema.owner?
  rw [h.columns]

theorem rank? (h : Reregisters s s') (c : ColumnId) : s'.rank? c = s.rank? c :=
  rank?_of_columns h.columns c

theorem parent? (h : Reregisters s s') (r : RelationshipId) : s'.parent? r = s.parent? r := by
  unfold Schema.parent?
  rw [h.relationships]

theorem child? (h : Reregisters s s') (r : RelationshipId) : s'.child? r = s.child? r := by
  unfold Schema.child?
  rw [h.relationships]

theorem mappingsOf (h : Reregisters s s') (r : RelationshipId) :
    s'.mappingsOf r = s.mappingsOf r := by
  unfold Schema.mappingsOf
  rw [h.relationships]

theorem isIdentifying (h : Reregisters s s') (r : RelationshipId) :
    s'.isIdentifying r = s.isIdentifying r := by
  unfold Schema.isIdentifying
  rw [h.relationships]

theorem sound (h : Reregisters s s') (hs : s.Sound) (hexp_nodup : ∀ t, (s'.exportsOf t).Nodup)
    (himp_nodup : ∀ t, (s'.importsOf t).Nodup)
    (hexp : ∀ t r, r ∈ s'.exportsOf t → s.parent? r = some t)
    (himp : ∀ t r, r ∈ s'.importsOf t → s.child? r = some t) : s'.Sound where
  tables_nodup := h.tableKeys ▸ hs.tables_nodup
  columns_nodup := h.columns ▸ hs.columns_nodup
  relationships_nodup := h.relationships ▸ hs.relationships_nodup
  columnsOf_nodup t := h.columnsOf t ▸ hs.columnsOf_nodup t
  exportsOf_nodup := hexp_nodup
  importsOf_nodup := himp_nodup
  listed t c := by rw [h.columnsOf, h.owner?]; exact hs.listed t c
  owned c hc := by
    rw [h.owner?]
    exact hs.owned c (h.columns ▸ hc)
  exported t r hr := (h.parent? r).trans (hexp t r hr)
  imported t r hr := (h.child? r).trans (himp t r hr)
  parent_stored r t hr := (h.contains_table t).trans (hs.parent_stored r t (h.parent? r ▸ hr))
  child_stored r t hr := (h.contains_table t).trans (hs.child_stored r t (h.child? r ▸ hr))
  mapped r m hm := by
    simp only [h.parent?, h.child?, h.owner?]
    exact hs.mapped r m (h.mappingsOf r ▸ hm)
  pks_nodup r := h.mappingsOf r ▸ hs.pks_nodup r
  table_fresh t ht := h.lastTable ▸ hs.table_fresh t (h.contains_table t ▸ ht)
  column_fresh c hc := h.lastColumn ▸ hs.column_fresh c (h.columns ▸ hc)
  relationship_fresh r hr := h.lastRelationship ▸ hs.relationship_fresh r (h.relationships ▸ hr)

/-- Changing the registrations of one table. -/
theorem of_change {f : Table → Table} (h : SameObjects (s.changeTable t f) s')
    (hcols : ∀ tbl, (f tbl).columns = tbl.columns)
    (hswitch : ∀ tbl, (f tbl).switches = tbl.switches) : Reregisters s s' := by
  refine ⟨h.config, ?_, h.columns, h.relationships, fun t' => ?_, fun t' => ?_, h.lastTable,
    h.lastColumn, h.lastRelationship⟩
  · rw [h.tables]
    exact Roster.keys_modify _ _ _
  · exact elim_of_changeTable h hcols t'
  · unfold Schema.switchesOf
    rw [h.tables]
    by_cases heq : t' = t
    · cases ht : s.tables.get? t <;> simp [changeTable, heq, ht, hswitch]
    · simp [changeTable, heq]

end Reregisters

theorem exportsOf_changeTable {f : Table → Table} (h : SameObjects (s.changeTable t f) s')
    (t' : TableId) : s'.exportsOf t' =
      if t' = t then (s.tables.get? t).elim [] (fun tbl => (f tbl).exportedKeys)
      else s.exportsOf t' := elim_changeTable h t'

theorem importsOf_changeTable {f : Table → Table} (h : SameObjects (s.changeTable t f) s')
    (t' : TableId) : s'.importsOf t' =
      if t' = t then (s.tables.get? t).elim [] (fun tbl => (f tbl).importedKeys)
      else s.importsOf t' := elim_changeTable h t'

/-! ## Taking registrations out -/

/-- Whether registrations are taken out, and nothing else changes. -/
structure Deregisters (s s' : Schema) : Prop where
  reregisters : Reregisters s s'
  exports : ∀ t, (s'.exportsOf t).Sublist (s.exportsOf t)
  imports : ∀ t, (s'.importsOf t).Sublist (s.importsOf t)

namespace Deregisters

theorem sound (h : Deregisters s s') (hs : s.Sound) : s'.Sound :=
  h.reregisters.sound hs (fun t => (h.exports t).nodup (hs.exportsOf_nodup t))
    (fun t => (h.imports t).nodup (hs.importsOf_nodup t))
    (fun t r hr => hs.exported t r ((h.exports t).subset hr))
    fun t r hr => hs.imported t r ((h.imports t).subset hr)

/-- Nothing becomes live. -/
theorem isLive_of (h : Deregisters s s') (hl : s'.isLive r = true) : s.isLive r = true := by
  have hre := h.reregisters
  obtain ⟨p, ch, hp, hch, hexp, himp⟩ := isLive_iff.mp hl
  exact isLive_iff.mpr ⟨p, ch, (hre.parent? r).symm.trans hp, (hre.child? r).symm.trans hch,
    (h.exports p).subset hexp, (h.imports ch).subset himp⟩

end Deregisters

theorem deregisterExported_cases (r : RelationshipId) (s : Schema) :
    (s.deregisterExported r = s ∧ ∀ t, s.parent? r = some t → r ∉ s.exportsOf t) ∨
      ∃ t i, (s.exportsOf t).idxOf? r = some i ∧
        SameObjects (s.changeTable t fun tbl =>
          { tbl with exportedKeys := tbl.exportedKeys.eraseIdx i }) (s.deregisterExported r) := by
  unfold deregisterExported
  cases hp : (s.relationships.get? r).bind Relationship.parent with
  | none => exact .inl ⟨rfl, fun t ht => by simp [parent?, hp] at ht⟩
  | some p =>
      cases hi : (s.exportsOf p).idxOf? r with
      | none =>
          refine .inl ⟨by simp [hi], fun t ht => ?_⟩
          rw [parent?, hp] at ht
          obtain rfl := Option.some.inj ht
          exact List.idxOf?_eq_none_iff.mp hi
      | some i => exact .inr ⟨p, i, hi, by simpa [hi] using SameObjects.raise _ _⟩

theorem deregisterImported_cases (r : RelationshipId) (s : Schema) :
    (s.deregisterImported r = s ∧ ∀ t, s.child? r = some t → r ∉ s.importsOf t) ∨
      ∃ t i, (s.importsOf t).idxOf? r = some i ∧
        SameObjects (s.changeTable t fun tbl =>
          { tbl with importedKeys := tbl.importedKeys.eraseIdx i }) (s.deregisterImported r) := by
  unfold deregisterImported
  cases hp : (s.relationships.get? r).bind Relationship.child with
  | none => exact .inl ⟨rfl, fun t ht => by simp [child?, hp] at ht⟩
  | some p =>
      cases hi : (s.importsOf p).idxOf? r with
      | none =>
          refine .inl ⟨by simp [hi], fun t ht => ?_⟩
          rw [child?, hp] at ht
          obtain rfl := Option.some.inj ht
          exact List.idxOf?_eq_none_iff.mp hi
      | some i => exact .inr ⟨p, i, hi, by simpa [hi] using SameObjects.raise _ _⟩

theorem reregisters_deregisterExported (r : RelationshipId) (s : Schema) :
    Reregisters s (s.deregisterExported r) := by
  rcases deregisterExported_cases r s with ⟨h, -⟩ | ⟨t, i, -, h⟩
  · rw [h]
  · exact .of_change h (fun _ => rfl) fun _ => rfl

theorem reregisters_deregisterImported (r : RelationshipId) (s : Schema) :
    Reregisters s (s.deregisterImported r) := by
  rcases deregisterImported_cases r s with ⟨h, -⟩ | ⟨t, i, -, h⟩
  · rw [h]
  · exact .of_change h (fun _ => rfl) fun _ => rfl

theorem importsOf_deregisterExported (r : RelationshipId) (s : Schema) (t : TableId) :
    (s.deregisterExported r).importsOf t = s.importsOf t := by
  rcases deregisterExported_cases r s with ⟨h, -⟩ | ⟨p, i, -, h⟩
  · rw [h]
  · exact elim_of_changeTable h (fun _ => rfl) t

theorem exportsOf_deregisterImported (r : RelationshipId) (s : Schema) (t : TableId) :
    (s.deregisterImported r).exportsOf t = s.exportsOf t := by
  rcases deregisterImported_cases r s with ⟨h, -⟩ | ⟨p, i, -, h⟩
  · rw [h]
  · exact elim_of_changeTable h (fun _ => rfl) t

/-- What is taken out of the only list that has it is taken out of all of them. -/
theorem elim_of_eraseIdx {list : Table → List RelationshipId} {f : Table → Table} {p : TableId}
    {i : Nat} (h : SameObjects (s.changeTable p f) s')
    (hf : ∀ tbl, list (f tbl) = (list tbl).eraseIdx i)
    (hi : ((s.tables.get? p).elim [] list).idxOf? r = some i)
    (hnodup : ((s.tables.get? p).elim [] list).Nodup)
    (honly : ∀ t, r ∈ (s.tables.get? t).elim [] list → t = p) (t : TableId) :
    (s'.tables.get? t).elim [] list =
      ((s.tables.get? t).elim [] list).filter fun r' => decide (r' ≠ r) := by
  rw [elim_changeTable h]
  by_cases heq : t = p
  · subst heq
    rw [if_pos rfl, ← eraseIdx_eq_filter_ne hnodup hi]
    cases htbl : s.tables.get? t with
    | none => rfl
    | some tbl => exact hf tbl
  · rw [if_neg heq, filter_ne_of_notMem fun hr => heq (honly t hr)]

namespace Sound

/-- Unregistering takes the relationship out of every list of exported keys. -/
theorem exportsOf_deregisterExported (hs : s.Sound) (r : RelationshipId) (t : TableId) :
    (s.deregisterExported r).exportsOf t = (s.exportsOf t).filter fun r' => decide (r' ≠ r) := by
  rcases deregisterExported_cases r s with ⟨h, hno⟩ | ⟨p, i, hi, h⟩
  · rw [h, filter_ne_of_notMem fun hr => hno t (hs.exported t r hr) hr]
  · have hp : r ∈ s.exportsOf p := List.isSome_idxOf?.mp (by rw [hi]; rfl)
    refine elim_of_eraseIdx h (fun _ => rfl) hi (hs.exportsOf_nodup p) (fun t' hr => ?_) t
    exact Option.some.inj ((hs.exported t' r hr).symm.trans (hs.exported p r hp))

/-- Unregistering takes the relationship out of every list of imported keys. -/
theorem importsOf_deregisterImported (hs : s.Sound) (r : RelationshipId) (t : TableId) :
    (s.deregisterImported r).importsOf t = (s.importsOf t).filter fun r' => decide (r' ≠ r) := by
  rcases deregisterImported_cases r s with ⟨h, hno⟩ | ⟨p, i, hi, h⟩
  · rw [h, filter_ne_of_notMem fun hr => hno t (hs.imported t r hr) hr]
  · have hp : r ∈ s.importsOf p := List.isSome_idxOf?.mp (by rw [hi]; rfl)
    refine elim_of_eraseIdx h (fun _ => rfl) hi (hs.importsOf_nodup p) (fun t' hr => ?_) t
    exact Option.some.inj ((hs.imported t' r hr).symm.trans (hs.imported p r hp))

theorem deregisters_exported (hs : s.Sound) (r : RelationshipId) :
    Deregisters s (s.deregisterExported r) where
  reregisters := reregisters_deregisterExported r s
  exports t := hs.exportsOf_deregisterExported r t ▸ List.filter_sublist
  imports t := importsOf_deregisterExported r s t ▸ .refl _

theorem deregisters_imported (hs : s.Sound) (r : RelationshipId) :
    Deregisters s (s.deregisterImported r) where
  reregisters := reregisters_deregisterImported r s
  exports t := exportsOf_deregisterImported r s t ▸ .refl _
  imports t := hs.importsOf_deregisterImported r t ▸ List.filter_sublist

end Sound

/-- Take a relationship out of the lists of both of its tables and clear its mappings. -/
def unlink (r : RelationshipId) (s : Schema) : Schema :=
  ((s.deregisterExported r).deregisterImported r).clearMappings r

theorem reregisters_deregister (r : RelationshipId) (s : Schema) :
    Reregisters s ((s.deregisterExported r).deregisterImported r) :=
  (reregisters_deregisterExported r s).trans (reregisters_deregisterImported r _)

/-- What is left of a schema once a relationship is unlinked. -/
structure Unlinked (r : RelationshipId) (s s' : Schema) : Prop where
  sound : s'.Sound
  config : s'.config = s.config
  notMem_exportsOf : ∀ t, r ∉ s'.exportsOf t
  notMem_importsOf : ∀ t, r ∉ s'.importsOf t
  isLive : ∀ r', s'.isLive r' = (decide (r' ≠ r) && s.isLive r')
  mappingsOf : ∀ r', s'.mappingsOf r' = if r' = r then [] else s.mappingsOf r'
  columns : s'.columns = s.columns
  columnsOf : ∀ t, s'.columnsOf t = s.columnsOf t
  cascades : ∀ t, s'.cascades t = s.cascades t
  parent? : ∀ r', s'.parent? r' = s.parent? r'
  child? : ∀ r', s'.child? r' = s.child? r'
  isIdentifying : ∀ r', s'.isIdentifying r' = s.isIdentifying r'
  tableKeys : s'.tables.keys = s.tables.keys
  relationshipKeys : s'.relationships.keys = s.relationships.keys

theorem Sound.unlinked (hs : s.Sound) (r : RelationshipId) : Unlinked r s (s.unlink r) := by
  have hs₁ := (hs.deregisters_exported r).sound hs
  have hs₂ := (hs₁.deregisters_imported r).sound hs₁
  have hreg := reregisters_deregister r s
  have hun := unmaps_clearMappings r ((s.deregisterExported r).deregisterImported r)
  -- registrations go one side after the other, and mappings last
  have hexp : ∀ t, (s.unlink r).exportsOf t = (s.exportsOf t).filter fun r' => decide (r' ≠ r) := by
    intro t
    rw [unlink, hun.sameFrame.exportsOf, exportsOf_deregisterImported,
      hs.exportsOf_deregisterExported]
  have himp : ∀ t, (s.unlink r).importsOf t = (s.importsOf t).filter fun r' => decide (r' ≠ r) := by
    intro t
    rw [unlink, hun.sameFrame.importsOf, hs₁.importsOf_deregisterImported,
      importsOf_deregisterExported]
  have hp : ∀ r', (s.unlink r).parent? r' = s.parent? r' := fun r' =>
    (hun.sameFrame.parent? r').trans (hreg.parent? r')
  have hch : ∀ r', (s.unlink r).child? r' = s.child? r' := fun r' =>
    (hun.sameFrame.child? r').trans (hreg.child? r')
  constructor
  case sound => exact hs₂.of_unmaps hun
  case config => exact hun.config.trans hreg.config
  case notMem_exportsOf => intro t; simp [hexp]
  case notMem_importsOf => intro t; simp [himp]
  case isLive =>
    intro r'
    rw [Bool.eq_iff_iff, Bool.and_eq_true, decide_eq_true_eq]
    simp only [isLive_iff, hp, hch, hexp, himp, List.mem_filter, decide_eq_true_eq]
    constructor
    · rintro ⟨p, ch, h₁, h₂, ⟨h₃, hne⟩, h₄, -⟩
      exact ⟨hne, p, ch, h₁, h₂, h₃, h₄⟩
    · rintro ⟨hne, p, ch, h₁, h₂, h₃, h₄⟩
      exact ⟨p, ch, h₁, h₂, ⟨h₃, hne⟩, h₄, hne⟩
  case mappingsOf =>
    intro r'
    rw [unlink, mappingsOf_clearMappings, hreg.mappingsOf]
  case columns => exact hun.columns.trans hreg.columns
  case columnsOf => exact fun t => (hun.columnsOf t).trans (hreg.columnsOf t)
  case cascades => exact fun t => (hun.sameFrame.cascades t).trans (hreg.cascades t)
  case parent? => exact hp
  case child? => exact hch
  case isIdentifying =>
    exact fun r' => (hun.sameFrame.isIdentifying r').trans (hreg.isIdentifying r')
  case tableKeys => exact hun.sameFrame.keys_tables.trans hreg.tableKeys
  case relationshipKeys =>
    exact hun.sameFrame.keys_relationships.trans (by rw [hreg.relationships])

theorem Unlinked.owner? (h : Unlinked r s s') (c : ColumnId) : s'.owner? c = s.owner? c := by
  unfold Schema.owner?
  rw [h.columns]

/-! ## One relationship in place of another -/

/-- Whether two schemas differ in one relationship at most; `rel` is what it is afterwards. -/
structure Replaces (r : RelationshipId) (rel : Option Relationship) (s s' : Schema) : Prop where
  config : s'.config = s.config
  tables : s'.tables = s.tables
  columns : s'.columns = s.columns
  keys_nodup : s.relationships.keys.Nodup → s'.relationships.keys.Nodup
  get? : ∀ r', s'.relationships.get? r' = if r' = r then rel else s.relationships.get? r'
  lastTable : s'.lastTable = s.lastTable
  lastColumn : s'.lastColumn = s.lastColumn
  lastRelationship : s.lastRelationship ≤ s'.lastRelationship

namespace Replaces

variable {rel : Option Relationship}

theorem exportsOf (h : Replaces r rel s s') (t : TableId) : s'.exportsOf t = s.exportsOf t := by
  unfold Schema.exportsOf
  rw [h.tables]

theorem importsOf (h : Replaces r rel s s') (t : TableId) : s'.importsOf t = s.importsOf t := by
  unfold Schema.importsOf
  rw [h.tables]

theorem columnsOf (h : Replaces r rel s s') (t : TableId) : s'.columnsOf t = s.columnsOf t := by
  unfold Schema.columnsOf
  rw [h.tables]

theorem owner? (h : Replaces r rel s s') (c : ColumnId) : s'.owner? c = s.owner? c := by
  unfold Schema.owner?
  rw [h.columns]

theorem parent? (h : Replaces r rel s s') (r' : RelationshipId) :
    s'.parent? r' = if r' = r then rel.bind Relationship.parent else s.parent? r' := by
  unfold Schema.parent?
  rw [h.get?]
  split <;> rfl

theorem child? (h : Replaces r rel s s') (r' : RelationshipId) :
    s'.child? r' = if r' = r then rel.bind Relationship.child else s.child? r' := by
  unfold Schema.child?
  rw [h.get?]
  split <;> rfl

theorem mappingsOf (h : Replaces r rel s s') (r' : RelationshipId) :
    s'.mappingsOf r' = if r' = r then rel.elim [] Relationship.mappings else s.mappingsOf r' := by
  unfold Schema.mappingsOf
  rw [h.get?]
  split <;> rfl

/-- What is put in place of an unregistered relationship is not live. -/
theorem not_isLive (h : Replaces r rel s s') (hexp : ∀ t, r ∉ s.exportsOf t) :
    s'.isLive r = false := by
  rw [Bool.eq_false_iff]
  intro hl
  obtain ⟨p, -, -, -, hr, -⟩ := isLive_iff.mp hl
  rw [h.exportsOf] at hr
  exact hexp p hr

/-- A relationship that is not registered may be replaced by one without mappings whose ends, if it
has any, are tables of the schema. -/
theorem sound (h : Replaces r rel s s') (hs : s.Sound) (hexp : ∀ t, r ∉ s.exportsOf t)
    (himp : ∀ t, r ∉ s.importsOf t) (hm : rel.elim [] Relationship.mappings = [])
    (hp : ∀ t, rel.bind Relationship.parent = some t → s.tables.contains t = true)
    (hch : ∀ t, rel.bind Relationship.child = some t → s.tables.contains t = true)
    (hfresh : ∀ x, rel = some x → r.val ≤ s'.lastRelationship) : s'.Sound where
  tables_nodup := h.tables ▸ hs.tables_nodup
  columns_nodup := h.columns ▸ hs.columns_nodup
  relationships_nodup := h.keys_nodup hs.relationships_nodup
  columnsOf_nodup t := h.columnsOf t ▸ hs.columnsOf_nodup t
  exportsOf_nodup t := h.exportsOf t ▸ hs.exportsOf_nodup t
  importsOf_nodup t := h.importsOf t ▸ hs.importsOf_nodup t
  listed t c := by
    rw [h.columnsOf, h.owner?]
    exact hs.listed t c
  owned c hc := by
    rw [h.owner?]
    exact hs.owned c (h.columns ▸ hc)
  -- what is registered is not the relationship that is replaced
  exported t r' hr' := by
    rw [h.exportsOf] at hr'
    have hne : r' ≠ r := fun heq => hexp t (heq ▸ hr')
    rw [h.parent?, if_neg hne]
    exact hs.exported t r' hr'
  imported t r' hr' := by
    rw [h.importsOf] at hr'
    have hne : r' ≠ r := fun heq => himp t (heq ▸ hr')
    rw [h.child?, if_neg hne]
    exact hs.imported t r' hr'
  parent_stored r' t ht := by
    rw [h.tables]
    rw [h.parent?] at ht
    split at ht
    · exact hp t ht
    · exact hs.parent_stored r' t ht
  child_stored r' t ht := by
    rw [h.tables]
    rw [h.child?] at ht
    split at ht
    · exact hch t ht
    · exact hs.child_stored r' t ht
  mapped r' m hin := by
    rw [h.mappingsOf] at hin
    split at hin
    · rw [hm] at hin
      exact absurd hin List.not_mem_nil
    · rename_i hne
      rw [h.parent?, h.child?, if_neg hne, if_neg hne, h.owner?, h.owner?]
      exact hs.mapped r' m hin
  pks_nodup r' := by
    rw [h.mappingsOf]
    split
    · rw [hm]
      exact List.nodup_nil
    · exact hs.pks_nodup r'
  table_fresh := by
    rw [h.tables, h.lastTable]
    exact hs.table_fresh
  column_fresh := by
    rw [h.columns, h.lastColumn]
    exact hs.column_fresh
  relationship_fresh r' hr' := by
    obtain ⟨x, hx⟩ := (Roster.contains_iff _ _).mp hr'
    rw [h.get?] at hx
    split at hx
    · rename_i heq
      exact heq ▸ hfresh x hx
    · exact Nat.le_trans (hs.relationship_fresh r' (Roster.contains_of_get? hx)) h.lastRelationship

end Replaces

/-- Take a relationship out of the schema, as it stands. -/
def dropRelationship (r : RelationshipId) (s : Schema) : Schema :=
  { s with relationships := s.relationships.erase r }

/-- What is seen of the relationships once one of them is dropped. -/
theorem get?_dropRelationship (r r' : RelationshipId) (s : Schema) :
    (s.dropRelationship r).relationships.get? r' =
      if r' = r then none else s.relationships.get? r' := Roster.get?_erase ..

theorem replaces_dropRelationship (r : RelationshipId) (s : Schema) :
    Replaces r none s (s.dropRelationship r) :=
  ⟨rfl, rfl, rfl, fun h => Roster.nodup_keys_erase h r, fun r' => get?_dropRelationship r r' s, rfl,
    rfl, Nat.le_refl _⟩

theorem parent?_dropRelationship (r r' : RelationshipId) (s : Schema) :
    (s.dropRelationship r).parent? r' = if r' = r then none else s.parent? r' :=
  (replaces_dropRelationship r s).parent? r'

theorem child?_dropRelationship (r r' : RelationshipId) (s : Schema) :
    (s.dropRelationship r).child? r' = if r' = r then none else s.child? r' :=
  (replaces_dropRelationship r s).child? r'

theorem mappingsOf_dropRelationship (r r' : RelationshipId) (s : Schema) :
    (s.dropRelationship r).mappingsOf r' = if r' = r then [] else s.mappingsOf r' :=
  (replaces_dropRelationship r s).mappingsOf r'

theorem isLive_dropRelationship (r r' : RelationshipId) (s : Schema) :
    (s.dropRelationship r).isLive r' = (decide (r' ≠ r) && s.isLive r') := by
  unfold isLive
  rw [get?_dropRelationship]
  by_cases h : r' = r
  · simp [h]
  · simp only [h, if_false, ne_eq, not_false_eq_true, decide_true, Bool.true_and]
    rfl

/-- An unregistered relationship can be taken out of the schema. -/
theorem Sound.dropRelationship (hs : s.Sound) (hexp : ∀ t, r ∉ s.exportsOf t)
    (himp : ∀ t, r ∉ s.importsOf t) : (s.dropRelationship r).Sound :=
  (replaces_dropRelationship r s).sound hs hexp himp rfl (fun _ h => nomatch h) (fun _ h => nomatch h)
    fun _ h => nomatch h

/-! ## Putting registrations in -/

theorem exportsOf_registerExported (ht : s.tables.contains t = true) (r : RelationshipId)
    (t' : TableId) : (s.registerExported t r).exportsOf t' =
      if t' = t then s.exportsOf t ++ [r] else s.exportsOf t' := by
  obtain ⟨tbl, htbl⟩ := (Roster.contains_iff _ _).mp ht
  rw [registerExported, exportsOf_changeTable (SameObjects.raise _ _)]
  simp [htbl, exportsOf]

theorem importsOf_registerExported (t : TableId) (r : RelationshipId) (s : Schema) (t' : TableId) :
    (s.registerExported t r).importsOf t' = s.importsOf t' := by
  rw [registerExported, importsOf_changeTable (SameObjects.raise _ _)]
  split
  · rename_i h
    rw [h]
    rfl
  · rfl

theorem importsOf_registerImported (ht : s.tables.contains t = true) (r : RelationshipId)
    (t' : TableId) : (s.registerImported t r).importsOf t' =
      if t' = t then s.importsOf t ++ [r] else s.importsOf t' := by
  obtain ⟨tbl, htbl⟩ := (Roster.contains_iff _ _).mp ht
  rw [registerImported, importsOf_changeTable (SameObjects.raise _ _)]
  simp [htbl, importsOf]

theorem exportsOf_registerImported (t : TableId) (r : RelationshipId) (s : Schema) (t' : TableId) :
    (s.registerImported t r).exportsOf t' = s.exportsOf t' := by
  rw [registerImported, exportsOf_changeTable (SameObjects.raise _ _)]
  split
  · rename_i h
    rw [h]
    rfl
  · rfl

theorem reregisters_registerExported (t : TableId) (r : RelationshipId) (s : Schema) :
    Reregisters s (s.registerExported t r) :=
  .of_change (SameObjects.raise _ _) (fun _ => rfl) fun _ => rfl

theorem reregisters_registerImported (t : TableId) (r : RelationshipId) (s : Schema) :
    Reregisters s (s.registerImported t r) :=
  .of_change (SameObjects.raise _ _) (fun _ => rfl) fun _ => rfl

theorem Sound.registerExported (hs : s.Sound) (hp : s.parent? r = some t) (hr : r ∉ s.exportsOf t) :
    (s.registerExported t r).Sound := by
  have ht := hs.parent_stored r t hp
  refine (reregisters_registerExported t r s).sound hs (fun t' => ?_) (fun t' => ?_)
    (fun t' r' hr' => ?_) fun t' r' hr' => ?_
  · rw [exportsOf_registerExported ht]
    split
    · rw [← List.concat_eq_append]
      exact (hs.exportsOf_nodup t).concat hr
    · exact hs.exportsOf_nodup t'
  · rw [importsOf_registerExported]
    exact hs.importsOf_nodup t'
  · rw [exportsOf_registerExported ht] at hr'
    split at hr'
    · rename_i h
      subst h
      rcases List.mem_append.mp hr' with hr' | hr'
      · exact hs.exported t' r' hr'
      · obtain rfl := List.mem_singleton.mp hr'
        exact hp
    · exact hs.exported t' r' hr'
  · rw [importsOf_registerExported] at hr'
    exact hs.imported t' r' hr'

theorem Sound.registerImported (hs : s.Sound) (hch : s.child? r = some t) (hr : r ∉ s.importsOf t) :
    (s.registerImported t r).Sound := by
  have ht := hs.child_stored r t hch
  refine (reregisters_registerImported t r s).sound hs (fun t' => ?_) (fun t' => ?_)
    (fun t' r' hr' => ?_) fun t' r' hr' => ?_
  · rw [exportsOf_registerImported]
    exact hs.exportsOf_nodup t'
  · rw [importsOf_registerImported ht]
    split
    · rw [← List.concat_eq_append]
      exact (hs.importsOf_nodup t).concat hr
    · exact hs.importsOf_nodup t'
  · rw [exportsOf_registerImported] at hr'
    exact hs.exported t' r' hr'
  · rw [importsOf_registerImported ht] at hr'
    split at hr'
    · rename_i h
      subst h
      rcases List.mem_append.mp hr' with hr' | hr'
      · exact hs.imported t' r' hr'
      · obtain rfl := List.mem_singleton.mp hr'
        exact hch
    · exact hs.imported t' r' hr'

/-! ## Changing the ends -/

theorem isRegistered_iff (hs : s.tables.keys.Nodup) :
    s.isRegistered r = true ↔ ∃ t, r ∈ s.exportsOf t ∨ r ∈ s.importsOf t := by
  unfold isRegistered
  rw [Roster.anyEntry_iff hs]
  constructor
  · rintro ⟨t, tbl, ht, h⟩
    simp only [Bool.or_eq_true, decide_eq_true_eq] at h
    exact ⟨t, h.imp (fun h => mem_exportsOf.mpr ⟨tbl, ht, h⟩) fun h => mem_importsOf.mpr ⟨tbl, ht, h⟩⟩
  · rintro ⟨t, h | h⟩
    · obtain ⟨tbl, ht, h⟩ := mem_exportsOf.mp h
      exact ⟨t, tbl, ht, by simp [h]⟩
    · obtain ⟨tbl, ht, h⟩ := mem_importsOf.mp h
      exact ⟨t, tbl, ht, by simp [h]⟩

theorem notMem_of_not_isRegistered (hs : s.Sound) (h : s.isRegistered r = false) :
    (∀ t, r ∉ s.exportsOf t) ∧ ∀ t, r ∉ s.importsOf t := by
  rw [Bool.eq_false_iff, ne_eq, isRegistered_iff hs.tables_nodup] at h
  exact ⟨fun t ht => h ⟨t, .inl ht⟩, fun t ht => h ⟨t, .inr ht⟩⟩

/-- What is seen of the relationships once one of them has changed. -/
theorem get?_changeRelationship {f : Relationship → Relationship}
    (h : SameObjects (s.changeRelationship r f) s') (r' : RelationshipId) :
    s'.relationships.get? r' =
      if r' = r then (s.relationships.get? r).map f else s.relationships.get? r' := by
  rw [h.relationships]
  unfold changeRelationship
  rw [Roster.get?_modify]
  split
  · rename_i heq
    rw [heq]
  · rfl

theorem replaces_changeRelationship {f : Relationship → Relationship}
    (h : SameObjects (s.changeRelationship r f) s') :
    Replaces r ((s.relationships.get? r).map f) s s' where
  config := h.config
  tables := h.tables
  columns := h.columns
  keys_nodup hnodup := by
    rw [h.relationships]
    exact Roster.nodup_keys_modify hnodup r f
  get? := get?_changeRelationship h
  lastTable := h.lastTable
  lastColumn := h.lastColumn
  lastRelationship := Nat.le_of_eq h.lastRelationship.symm

/-- A change of one relationship keeps a schema sound if the relationship is unregistered and
without mappings, and if its ends are tables of the schema. -/
theorem Sound.changeRelationship (hs : s.Sound) {f : Relationship → Relationship}
    (h : SameObjects (s.changeRelationship r f) s') (hreg : s.isRegistered r = false)
    (hm : ∀ rel, s.relationships.get? r = some rel → (f rel).mappings = [])
    (hp : ∀ rel t, s.relationships.get? r = some rel → (f rel).parent = some t →
      s.tables.contains t = true)
    (hch : ∀ rel t, s.relationships.get? r = some rel → (f rel).child = some t →
      s.tables.contains t = true) : s'.Sound := by
  obtain ⟨hexp, himp⟩ := notMem_of_not_isRegistered hs hreg
  refine (replaces_changeRelationship h).sound hs hexp himp ?_ (fun t ht => ?_) (fun t ht => ?_)
    fun x hx => ?_
  · cases hr : s.relationships.get? r with
    | none => rfl
    | some rel => exact hm rel hr
  · obtain ⟨x, hx, ht⟩ := Option.bind_eq_some_iff.mp ht
    obtain ⟨rel, hrel, rfl⟩ := Option.map_eq_some_iff.mp hx
    exact hp rel t hrel ht
  · obtain ⟨x, hx, ht⟩ := Option.bind_eq_some_iff.mp ht
    obtain ⟨rel, hrel, rfl⟩ := Option.map_eq_some_iff.mp hx
    exact hch rel t hrel ht
  · obtain ⟨rel, hrel, -⟩ := Option.map_eq_some_iff.mp hx
    rw [h.lastRelationship]
    exact hs.relationship_fresh r (Roster.contains_of_get? hrel)

theorem Sound.changeParent (hs : s.Sound) (hreg : s.isRegistered r = false)
    (hm : s.mappingsOf r = []) (old : Option TableId) {new : Option TableId}
    (hnew : ∀ t, new = some t → s.tables.contains t = true) : (s.changeParent r old new).Sound := by
  refine hs.changeRelationship (SameObjects.raise _ _) hreg (fun rel hrel => ?_)
    (fun _ t _ ht => hnew t ht) fun rel t hrel ht => ?_
  · simpa [mappingsOf, hrel] using hm
  · exact hs.child_stored r t (by simpa [child?, hrel] using ht)

theorem Sound.changeChild (hs : s.Sound) (hreg : s.isRegistered r = false)
    (hm : s.mappingsOf r = []) (old : Option TableId) {new : Option TableId}
    (hnew : ∀ t, new = some t → s.tables.contains t = true) : (s.changeChild r old new).Sound := by
  refine hs.changeRelationship (SameObjects.raise _ _) hreg (fun rel hrel => ?_)
    (fun rel t hrel ht => ?_) fun _ t _ ht => hnew t ht
  · simpa [mappingsOf, hrel] using hm
  · exact hs.parent_stored r t (by simpa [parent?, hrel] using ht)

/-! ## New relationships -/

/-- The schema that stores a new relationship. -/
def storeRelationship (rel : Relationship) (s : Schema) : Schema :=
  { s with lastRelationship := s.lastRelationship + 1 }.appendRelationship rel

theorem get?_storeRelationship (rel : Relationship) (s : Schema) (r : RelationshipId) :
    (s.storeRelationship rel).relationships.get? r =
      if r = ⟨s.lastRelationship + 1⟩ then some rel else s.relationships.get? r :=
  Roster.get?_insert ..

theorem replaces_storeRelationship (rel : Relationship) (s : Schema) :
    Replaces ⟨s.lastRelationship + 1⟩ (some rel) s (s.storeRelationship rel) :=
  ⟨rfl, rfl, rfl, fun h => Roster.nodup_keys_insert h _ _, get?_storeRelationship rel s, rfl, rfl,
    Nat.le_succ _⟩

/-- The identifier of a new relationship is not registered. -/
theorem Sound.next_notMem (hs : s.Sound) :
    (∀ t, ⟨s.lastRelationship + 1⟩ ∉ s.exportsOf t) ∧ ∀ t, ⟨s.lastRelationship + 1⟩ ∉ s.importsOf t := by
  have hfresh : s.relationships.contains ⟨s.lastRelationship + 1⟩ ≠ true := fun h =>
    Nat.not_succ_le_self _ (hs.relationship_fresh _ h)
  exact ⟨fun t h => hfresh (contains_of_parent? (hs.exported t _ h)),
    fun t h => hfresh (contains_of_child? (hs.imported t _ h))⟩

/-- A new relationship, without mappings, may have any tables of the schema as its ends. -/
theorem Sound.storeRelationship (hs : s.Sound) {rel : Relationship} (hm : rel.mappings = [])
    (hp : ∀ t, rel.parent = some t → s.tables.contains t = true)
    (hch : ∀ t, rel.child = some t → s.tables.contains t = true) :
    (s.storeRelationship rel).Sound :=
  (replaces_storeRelationship rel s).sound hs hs.next_notMem.1 hs.next_notMem.2 hm hp hch
    fun _ _ => Nat.le_refl _

end Schema

end KeyedSchema
