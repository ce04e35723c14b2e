import KeyedSchema.Proofs.Views

/-!
# Integrity — what holds between the objects of a schema

`Schema.Sound` collects how tables, columns and relationships refer to each other: every column is
listed once, by the table that owns it; a relationship is registered only with its ends; a mapping
joins a column of the parent to a column of the child, and no parent column twice; identifiers that
are to be given out are free.

A schema is sound after a change that keeps its **shape**, that is, ownership, registrations, ends
and mappings up to their order. The lemmas after that treat the changes of shape that cascades
make, one by one.
-/

namespace KeyedSchema

namespace Schema

variable {s s' s'' : Schema} {t t' p ch : TableId} {c : ColumnId} {r : RelationshipId}

theorem mem_mappersOf (h : s.relationships.keys.Nodup) :
    r ∈ s.mappersOf c ↔ ∃ m ∈ s.mappingsOf r, m.pk = c ∨ m.fk = c := by
  unfold mappersOf
  rw [Roster.mem_keysWhere h]
  constructor
  · rintro ⟨rel, hr, h⟩
    simp only [Bool.or_eq_true, mapsFrom_iff, mapsTo_iff] at h
    rcases h with ⟨m, hm, h⟩ | ⟨m, hm, h⟩
    · exact ⟨m, mem_mappingsOf.mpr ⟨rel, hr, hm⟩, .inl h⟩
    · exact ⟨m, mem_mappingsOf.mpr ⟨rel, hr, hm⟩, .inr h⟩
  · rintro ⟨m, hm, h⟩
    obtain ⟨rel, hr, hm⟩ := mem_mappingsOf.mp hm
    refine ⟨rel, hr, ?_⟩
    simp only [Bool.or_eq_true, mapsFrom_iff, mapsTo_iff]
    exact h.imp (fun h => ⟨m, hm, h⟩) fun h => ⟨m, hm, h⟩

/-- Whether the references between the objects of a schema are in order. -/
structure Sound (s : Schema) : Prop where
  tables_nodup : s.tables.keys.Nodup
  columns_nodup : s.columns.keys.Nodup
  relationships_nodup : s.relationships.keys.Nodup
  columnsOf_nodup : ∀ t, (s.columnsOf t).Nodup
  exportsOf_nodup : ∀ t, (s.exportsOf t).Nodup
  importsOf_nodup : ∀ t, (s.importsOf t).Nodup
  /-- A table lists exactly the columns that it owns. -/
  listed : ∀ t c, c ∈ s.columnsOf t ↔ s.owner? c = some t
  owned : ∀ c, s.columns.contains c = true → ∃ t, s.owner? c = some t
  exported : ∀ t r, r ∈ s.exportsOf t → s.parent? r = some t
  imported : ∀ t r, r ∈ s.importsOf t → s.child? r = some t
  parent_stored : ∀ r t, s.parent? r = some t → s.tables.contains t = true
  child_stored : ∀ r t, s.child? r = some t → s.tables.contains t = true
  /-- A mapping joins a column of the parent to a column of the child. -/
  mapped : ∀ r, ∀ m ∈ s.mappingsOf r, ∃ p ch, s.parent? r = some p ∧ s.child? r = some ch ∧
    s.owner? m.pk = some p ∧ s.owner? m.fk = some ch
  pks_nodup : ∀ r, ((s.mappingsOf r).map Mapping.pk).Nodup
  table_fresh : ∀ t, s.tables.contains t = true → t.val ≤ s.lastTable
  column_fresh : ∀ c, s.columns.contains c = true → c.val ≤ s.lastColumn
  relationship_fresh : ∀ r, s.relationships.contains r = true → r.val ≤ s.lastRelationship

namespace Sound

theorem table_of_owner (hs : s.Sound) (h : s.owner? c = some t) :
    ∃ tbl, s.tables.get? t = some tbl := by
  obtain ⟨tbl, htbl, -⟩ := mem_columnsOf.mp ((hs.listed t c).mpr h)
  exact ⟨tbl, htbl⟩

theorem pk_unique (hs : s.Sound) {m m' : Mapping} (hm : m ∈ s.mappingsOf r)
    (hm' : m' ∈ s.mappingsOf r) (h : m.pk = m'.pk) : m = m' :=
  List.inj_on_of_nodup_map (hs.pks_nodup r) hm hm' h

/-- No parent column is mapped twice, so its first mapping is its only one. -/
theorem find?_mapping_iff (hs : s.Sound) {m : Mapping} :
    (s.mappingsOf r).find? (fun m => m.pk = c) = some m ↔ m ∈ s.mappingsOf r ∧ m.pk = c := by
  constructor
  · intro h
    exact ⟨List.mem_of_find?_eq_some h, by simpa using List.find?_some h⟩
  · rintro ⟨hm, rfl⟩
    have hsome : ((s.mappingsOf r).find? fun m' => m'.pk = m.pk).isSome = true :=
      List.find?_isSome.mpr ⟨m, hm, by simp⟩
    obtain ⟨m', hm'⟩ := Option.isSome_iff_exists.mp hsome
    have hpk : m'.pk = m.pk := by simpa using List.find?_some hm'
    rw [hm', hs.pk_unique (List.mem_of_find?_eq_some hm') hm hpk]

theorem mappings_nodup (hs : s.Sound) (r : RelationshipId) : (s.mappingsOf r).Nodup :=
  (hs.pks_nodup r).of_map

theorem pk_stored (hs : s.Sound) {m : Mapping} (hm : m ∈ s.mappingsOf r) :
    s.columns.contains m.pk = true := by
  obtain ⟨p, ch, -, -, hpk, -⟩ := hs.mapped r m hm
  exact contains_of_owner? hpk

theorem fk_stored (hs : s.Sound) {m : Mapping} (hm : m ∈ s.mappingsOf r) :
    s.columns.contains m.fk = true := by
  obtain ⟨p, ch, -, -, -, hfk⟩ := hs.mapped r m hm
  exact contains_of_owner? hfk

theorem pk_owner (hs : s.Sound) {m : Mapping} (hm : m ∈ s.mappingsOf r)
    (hp : s.parent? r = some p) : s.owner? m.pk = some p := by
  obtain ⟨p', ch, hp', -, hpk, -⟩ := hs.mapped r m hm
  rw [hp] at hp'
  obtain rfl := Option.some.inj hp'
  exact hpk

theorem fk_owner (hs : s.Sound) {m : Mapping} (hm : m ∈ s.mappingsOf r)
    (hch : s.child? r = some t) : s.owner? m.fk = some t := by
  obtain ⟨-, ch, -, hch', -, hfk⟩ := hs.mapped r m hm
  obtain rfl := Option.some.inj (hch'.symm.trans hch)
  exact hfk

theorem relationship_of_export (hs : s.Sound) (h : r ∈ s.exportsOf t) :
    ∃ rel, s.relationships.get? r = some rel ∧ rel.parent = some t :=
  Option.bind_eq_some_iff.mp (hs.exported t r h)

theorem mem_liveExportsOf_iff (hs : s.Sound) (r : RelationshipId) (t : TableId) :
    r ∈ s.liveExportsOf t ↔ s.isLive r = true ∧ s.parent? r = some t := by
  rw [mem_liveExportsOf]
  constructor
  · rintro ⟨hx, hl⟩
    exact ⟨hl, hs.exported t r hx⟩
  · rintro ⟨hl, hp⟩
    obtain ⟨p, ch, hp', -, hx, -⟩ := isLive_iff.mp hl
    rw [hp] at hp'
    obtain rfl := Option.some.inj hp'
    exact ⟨hx, hl⟩

theorem isRetained_iff (hs : s.Sound) (c : ColumnId) :
    s.isRetained c = true ↔ ∃ r, s.isLive r = true ∧ ∃ m ∈ s.mappingsOf r, m.fk = c := by
  unfold isRetained
  rw [Roster.anyEntry_iff hs.relationships_nodup]
  constructor
  · rintro ⟨r, rel, hr, h⟩
    simp only [Bool.and_eq_true, mapsTo_iff] at h
    obtain ⟨⟨m, hm, hfk⟩, hl⟩ := h
    exact ⟨r, hl, m, mem_mappingsOf.mpr ⟨rel, hr, hm⟩, hfk⟩
  · rintro ⟨r, hl, m, hm, hfk⟩
    obtain ⟨rel, hr, hm⟩ := mem_mappingsOf.mp hm
    refine ⟨r, rel, hr, ?_⟩
    simp only [Bool.and_eq_true, mapsTo_iff]
    exact ⟨⟨m, hm, hfk⟩, hl⟩

theorem stored_of_isRetained (hs : s.Sound) (h : s.isRetained c = true) :
    s.columns.contains c = true := by
  obtain ⟨r, -, m, hm, rfl⟩ := (hs.isRetained_iff c).mp h
  exact hs.fk_stored hm

theorem mem_dependentsOf (hs : s.Sound) (f c : ColumnId) :
    f ∈ s.dependentsOf c ↔
      ∃ r, s.isLive r = true ∧ ∃ m ∈ s.mappingsOf r, m.pk = c ∧ m.fk = f := by
  unfold dependentsOf
  simp only [mem_distinct, List.mem_flatMap, List.mem_filter, mem_mappersOf hs.relationships_nodup]
  constructor
  · rintro ⟨r, ⟨-, hl⟩, hf⟩
    cases hr : s.relationships.get? r with
    | none => simp [hr] at hf
    | some rel =>
        simp only [hr, Option.elim_some, List.mem_map, List.mem_filter, decide_eq_true_eq] at hf
        obtain ⟨m, ⟨hm, hpk⟩, hfk⟩ := hf
        exact ⟨r, hl, m, mem_mappingsOf.mpr ⟨rel, hr, hm⟩, hpk, hfk⟩
  · rintro ⟨r, hl, m, hm, hpk, hfk⟩
    obtain ⟨rel, hr, hm'⟩ := mem_mappingsOf.mp hm
    refine ⟨r, ⟨⟨m, hm, .inl hpk⟩, hl⟩, ?_⟩
    simp only [hr, Option.elim_some, List.mem_map, List.mem_filter, decide_eq_true_eq]
    exact ⟨m, ⟨hm', hpk⟩, hfk⟩

end Sound

/-! ## Changes that keep the shape -/

/-- Whether two schemas agree on their configuration, on ownership, registrations and ends and, up to
order, on the columns of tables and on mappings. -/
structure SameShape (s s' : Schema) : Prop where
  config : s'.config = s.config
  tableKeys : s'.tables.keys = s.tables.keys
  columnKeys : s'.columns.keys = s.columns.keys
  relationshipKeys : s'.relationships.keys = s.relationships.keys
  columnsOf : ∀ t, (s'.columnsOf t).Perm (s.columnsOf t)
  exportsOf : ∀ t, s'.exportsOf t = s.exportsOf t
  importsOf : ∀ t, s'.importsOf t = s.importsOf t
  owner? : ∀ c, s'.owner? c = s.owner? c
  parent? : ∀ r, s'.parent? r = s.parent? r
  child? : ∀ r, s'.child? r = s.child? r
  mappingsOf : ∀ r, (s'.mappingsOf r).Perm (s.mappingsOf r)
  lastTable : s'.lastTable = s.lastTable
  lastColumn : s'.lastColumn = s.lastColumn
  lastRelationship : s'.lastRelationship = s.lastRelationship

namespace SameShape

@[refl] theorem refl (s : Schema) : SameShape s s := by
  constructor <;> intros <;> rfl

theorem trans (h : SameShape s s') (h' : SameShape s' s'') : SameShape s s'' where
  config := h'.config.trans h.config
  tableKeys := h'.tableKeys.trans h.tableKeys
  columnKeys := h'.columnKeys.trans h.columnKeys
  relationshipKeys := h'.relationshipKeys.trans h.relationshipKeys
  columnsOf t := (h'.columnsOf t).trans (h.columnsOf t)
  exportsOf t := (h'.exportsOf t).trans (h.exportsOf t)
  importsOf t := (h'.importsOf t).trans (h.importsOf t)
  owner? c := (h'.owner? c).trans (h.owner? c)
  parent? r := (h'.parent? r).trans (h.parent? r)
  child? r := (h'.child? r).trans (h.child? r)
  mappingsOf r := (h'.mappingsOf r).trans (h.mappingsOf r)
  lastTable := h'.lastTable.trans h.lastTable
  lastColumn := h'.lastColumn.trans h.lastColumn
  lastRelationship := h'.lastRelationship.trans h.lastRelationship

theorem contains_table (h : SameShape s s') (t : TableId) :
    s'.tables.contains t = s.tables.contains t := by
  rw [Bool.eq_iff_iff, ← Roster.mem_keys_iff, ← Roster.mem_keys_iff, h.tableKeys]

theorem contains_column (h : SameShape s s') (c : ColumnId) :
    s'.columns.contains c = s.columns.contains c := by
  rw [Bool.eq_iff_iff, ← Roster.mem_keys_iff, ← Roster.mem_keys_iff, h.columnKeys]

theorem contains_relationship (h : SameShape s s') (r : RelationshipId) :
    s'.relationships.contains r = s.relationships.contains r := by
  rw [Bool.eq_iff_iff, ← Roster.mem_keys_iff, ← Roster.mem_keys_iff, h.relationshipKeys]

theorem mem_mappingsOf (h : SameShape s s') {m : Mapping} :
    m ∈ s'.mappingsOf r ↔ m ∈ s.mappingsOf r := (h.mappingsOf r).mem_iff

theorem isLive (h : SameShape s s') (r : RelationshipId) : s'.isLive r = s.isLive r := by
  rw [Bool.eq_iff_iff]
  simp only [isLive_iff, h.parent?, h.child?, h.exportsOf, h.importsOf]

end SameShape

theorem SameObjects.sameShape (h : SameObjects s s') : SameShape s s' := by
  obtain ⟨held, raised, published, origins, rfl⟩ := h.exists_eq
  constructor <;> intros <;> rfl

/-- A change that keeps the frame only has to keep columns and mappings in order. -/
theorem Sound.of_sameFrame (hs : s.Sound) (hf : SameFrame s s') (hcolumns : s'.columns.keys.Nodup)
    (hnodup : ∀ t, (s'.columnsOf t).Nodup) (hlisted : ∀ t c, c ∈ s'.columnsOf t ↔ s'.owner? c = some t)
    (howned : ∀ c, s'.columns.contains c = true → ∃ t, s'.owner? c = some t)
    (hmapped : ∀ r, ∀ m ∈ s'.mappingsOf r, ∃ p ch, s.parent? r = some p ∧ s.child? r = some ch ∧
      s'.owner? m.pk = some p ∧ s'.owner? m.fk = some ch)
    (hpks : ∀ r, ((s'.mappingsOf r).map Mapping.pk).Nodup)
    (hfresh : ∀ c, s'.columns.contains c = true → c.val ≤ s'.lastColumn) : s'.Sound where
  tables_nodup := hf.keys_tables ▸ hs.tables_nodup
  columns_nodup := hcolumns
  relationships_nodup := hf.keys_relationships ▸ hs.relationships_nodup
  columnsOf_nodup := hnodup
  exportsOf_nodup t := hf.exportsOf t ▸ hs.exportsOf_nodup t
  importsOf_nodup t := hf.importsOf t ▸ hs.importsOf_nodup t
  listed := hlisted
  owned := howned
  exported t r hr := (hf.parent? r).trans (hs.exported t r (hf.exportsOf t ▸ hr))
  imported t r hr := (hf.child? r).trans (hs.imported t r (hf.importsOf t ▸ hr))
  parent_stored r t hr := (hf.contains_table t).trans (hs.parent_stored r t (hf.parent? r ▸ hr))
  child_stored r t hr := (hf.contains_table t).trans (hs.child_stored r t (hf.child? r ▸ hr))
  mapped r m hm := by
    rw [hf.parent?, hf.child?]
    exact hmapped r m hm
  pks_nodup := hpks
  table_fresh t ht := hf.lastTable ▸ hs.table_fresh t (hf.contains_table t ▸ ht)
  column_fresh := hfresh
  relationship_fresh r hr :=
    hf.lastRelationship ▸ hs.relationship_fresh r (hf.contains_relationship r ▸ hr)

theorem Sound.of_sameShape (hs : s.Sound) (h : SameShape s s') : s'.Sound where
  tables_nodup := h.tableKeys ▸ hs.tables_nodup
  columns_nodup := h.columnKeys ▸ hs.columns_nodup
  relationships_nodup := h.relationshipKeys ▸ hs.relationships_nodup
  columnsOf_nodup t := (h.columnsOf t).nodup_iff.mpr (hs.columnsOf_nodup t)
  exportsOf_nodup t := h.exportsOf t ▸ hs.exportsOf_nodup t
  importsOf_nodup t := h.importsOf t ▸ hs.importsOf_nodup t
  listed t c := by rw [(h.columnsOf t).mem_iff, h.owner?]; exact hs.listed t c
  owned c hc := by
    rw [h.contains_column] at hc
    rw [h.owner?]
    exact hs.owned c hc
  exported t r hr := by
    rw [h.exportsOf] at hr
    rw [h.parent?]
    exact hs.exported t r hr
  imported t r hr := by
    rw [h.importsOf] at hr
    rw [h.child?]
    exact hs.imported t r hr
  parent_stored r t hr := by
    rw [h.parent?] at hr
    rw [h.contains_table]
    exact hs.parent_stored r t hr
  child_stored r t hr := by
    rw [h.child?] at hr
    rw [h.contains_table]
    exact hs.child_stored r t hr
  mapped r m hm := by
    simp only [h.parent?, h.child?, h.owner?]
    exact hs.mapped r m (h.mem_mappingsOf.mp hm)
  pks_nodup r := (((h.mappingsOf r).map Mapping.pk).nodup_iff).mpr (hs.pks_nodup r)
  table_fresh t ht := by
    rw [h.contains_table] at ht
    rw [h.lastTable]
    exact hs.table_fresh t ht
  column_fresh c hc := by
    rw [h.contains_column] at hc
    rw [h.lastColumn]
    exact hs.column_fresh c hc
  relationship_fresh r hr := by
    rw [h.contains_relationship] at hr
    rw [h.lastRelationship]
    exact hs.relationship_fresh r hr

theorem Sound.of_sameObjects (hs : s.Sound) (h : SameObjects s s') : s'.Sound :=
  hs.of_sameShape h.sameShape

theorem Sound.signal (hs : s.Sound) (e : Event) : (s.signal e).Sound :=
  hs.of_sameObjects (SameObjects.signal e s)

/-- A schema without objects is sound. -/
theorem sound_ofConfig (config : Config) : (ofConfig config).Sound := by
  constructor <;>
    simp [ofConfig, Roster.empty, Roster.keys, columnsOf, exportsOf, importsOf, owner?, parent?,
      child?, mappingsOf, Roster.get?, Roster.find, Roster.contains]

end Schema

end KeyedSchema
