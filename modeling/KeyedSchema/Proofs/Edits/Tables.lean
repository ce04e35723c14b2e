import KeyedSchema.Proofs.Edits.Relationships

/-!
# Tables — edits that add and remove tables

A new table has no columns and no registrations. A table that is removed takes its relationships
along first, one by one, so that nothing refers to it or to its columns when it goes.
-/

namespace KeyedSchema

namespace Schema

variable {s s' : Schema} {t : TableId} {c : ColumnId} {r : RelationshipId}
  {rs : List RelationshipId}

/-! ## A new table -/

/-- The identifier that the next new table gets. -/
def nextTable (s : Schema) : TableId := ⟨s.lastTable + 1⟩

theorem nextTable_fresh (hs : s.Sound) : s.tables.contains s.nextTable = false := by
  rw [Bool.eq_false_iff]
  intro h
  have := hs.table_fresh _ h
  simp only [nextTable] at this
  omega

/-- What is seen of a table after one has been added. -/
theorem get?_appendTable (tbl : Table) (s : Schema) (t : TableId) :
    (s.appendTable tbl).tables.get? t = if t = s.nextTable then some { tbl with
      columns := []
      exportedKeys := []
      importedKeys := []
      inSecondaryChange := false
      magicEnabled := s.config.magicByDefault } else s.tables.get? t := by
  unfold appendTable
  rw [(raise_objects _ _).2.1]
  exact Roster.get?_insert ..

/-- A list that is empty for a new table is as it was for every table. -/
theorem elim_appendTable {α : Type} {f : Table → List α} (hs : s.Sound) (tbl : Table) (t : TableId)
    (hnew : f { tbl with
      columns := []
      exportedKeys := []
      importedKeys := []
      inSecondaryChange := false
      magicEnabled := s.config.magicByDefault } = []) :
    ((s.appendTable tbl).tables.get? t).elim [] f = (s.tables.get? t).elim [] f := by
  have hfresh := (Roster.contains_eq_false_iff _ _).mp (nextTable_fresh hs)
  rw [get?_appendTable]
  split
  · rename_i h
    rw [h, hfresh]
    exact hnew
  · rfl

theorem columnsOf_appendTable (hs : s.Sound) (tbl : Table) (t : TableId) :
    (s.appendTable tbl).columnsOf t = s.columnsOf t := elim_appendTable hs tbl t rfl

theorem exportsOf_appendTable (hs : s.Sound) (tbl : Table) (t : TableId) :
    (s.appendTable tbl).exportsOf t = s.exportsOf t := elim_appendTable hs tbl t rfl

theorem importsOf_appendTable (hs : s.Sound) (tbl : Table) (t : TableId) :
    (s.appendTable tbl).importsOf t = s.importsOf t := elim_appendTable hs tbl t rfl

theorem appendTable_objects (tbl : Table) (s : Schema) :
    (s.appendTable tbl).columns = s.columns ∧
      (s.appendTable tbl).relationships = s.relationships := by
  unfold appendTable
  simp

theorem parent?_appendTable (tbl : Table) (s : Schema) (r : RelationshipId) :
    (s.appendTable tbl).parent? r = s.parent? r := by
  unfold parent?
  rw [(appendTable_objects tbl s).2]

theorem child?_appendTable (tbl : Table) (s : Schema) (r : RelationshipId) :
    (s.appendTable tbl).child? r = s.child? r := by
  unfold child?
  rw [(appendTable_objects tbl s).2]

theorem mappingsOf_appendTable (tbl : Table) (s : Schema) (r : RelationshipId) :
    (s.appendTable tbl).mappingsOf r = s.mappingsOf r := by
  unfold mappingsOf
  rw [(appendTable_objects tbl s).2]

theorem owner?_appendTable (tbl : Table) (s : Schema) (c : ColumnId) :
    (s.appendTable tbl).owner? c = s.owner? c := by
  unfold owner?
  rw [(appendTable_objects tbl s).1]

theorem Sound.isLive_appendTable (hs : s.Sound) (tbl : Table) (r : RelationshipId) :
    (s.appendTable tbl).isLive r = s.isLive r := by
  rw [Bool.eq_iff_iff]
  simp only [isLive_iff, parent?_appendTable, child?_appendTable, exportsOf_appendTable hs,
    importsOf_appendTable hs]

theorem Sound.appendTable (hs : s.Sound) (tbl : Table) : (s.appendTable tbl).Sound := by
  obtain ⟨hcols, hrels⟩ := appendTable_objects tbl s
  have hparent := parent?_appendTable tbl s
  have hchild := child?_appendTable tbl s
  have howner := owner?_appendTable tbl s
  have hmap := mappingsOf_appendTable tbl s
  have hkeep : ∀ t, s.tables.contains t = true → (s.appendTable tbl).tables.contains t = true := by
    intro t ht
    unfold Roster.contains at ht ⊢
    rw [get?_appendTable]
    split
    · rfl
    · exact ht
  constructor
  case tables_nodup =>
    unfold Schema.appendTable
    rw [(raise_objects _ _).2.1]
    exact Roster.nodup_keys_insert hs.tables_nodup _ _
  case columns_nodup => exact hcols ▸ hs.columns_nodup
  case relationships_nodup => exact hrels ▸ hs.relationships_nodup
  case columnsOf_nodup => exact fun t => columnsOf_appendTable hs tbl t ▸ hs.columnsOf_nodup t
  case exportsOf_nodup => exact fun t => exportsOf_appendTable hs tbl t ▸ hs.exportsOf_nodup t
  case importsOf_nodup => exact fun t => importsOf_appendTable hs tbl t ▸ hs.importsOf_nodup t
  case listed =>
    intro t c
    rw [columnsOf_appendTable hs, howner]
    exact hs.listed t c
  case owned =>
    intro c hc
    rw [howner]
    exact hs.owned c (hcols ▸ hc)
  case exported =>
    intro t r hr
    rw [exportsOf_appendTable hs] at hr
    exact (hparent r).trans (hs.exported t r hr)
  case imported =>
    intro t r hr
    rw [importsOf_appendTable hs] at hr
    exact (hchild r).trans (hs.imported t r hr)
  case parent_stored => exact fun r t ht => hkeep t (hs.parent_stored r t (hparent r ▸ ht))
  case child_stored => exact fun r t ht => hkeep t (hs.child_stored r t (hchild r ▸ ht))
  case mapped =>
    intro r m hm
    simp only [hparent, hchild, howner]
    exact hs.mapped r m (hmap r ▸ hm)
  case pks_nodup => exact fun r => hmap r ▸ hs.pks_nodup r
  case table_fresh =>
    intro t ht
    have hlast : (s.appendTable tbl).lastTable = s.lastTable + 1 := by
      unfold Schema.appendTable
      simp
    rw [hlast]
    obtain ⟨tbl', htbl'⟩ := (Roster.contains_iff _ _).mp ht
    rw [get?_appendTable] at htbl'
    split at htbl'
    · rename_i h
      rw [h]
      exact Nat.le_refl _
    · exact Nat.le_succ_of_le (hs.table_fresh t (Roster.contains_of_get? htbl'))
  case column_fresh =>
    intro c hc
    have hlast : (s.appendTable tbl).lastColumn = s.lastColumn := by
      unfold Schema.appendTable
      simp
    rw [hlast]
    exact hs.column_fresh c (hcols ▸ hc)
  case relationship_fresh =>
    intro r hr
    have hlast : (s.appendTable tbl).lastRelationship = s.lastRelationship := by
      unfold Schema.appendTable
      simp
    rw [hlast]
    exact hs.relationship_fresh r (hrels ▸ hr)

/-! ## Dismissing relationships -/

/-- Whether a relationship is gone afterwards: it was gone before, it is removed with the columns
that only it mapped, or it was not live and is discarded. -/
inductive Dismisses (r : RelationshipId) (s : Schema) : Schema → Prop
  | gone (h : s.relationships.contains r = false) : Dismisses r s s
  | detached {s' : Schema} (hl : s.isLive r = true) (h : Detaches r s s') : Dismisses r s s'
  | discarded (hl : s.isLive r = false) : Dismisses r s ((s.unlink r).dropRelationship r)

/-- What a dismissal leaves alone: the tables, the owners of columns, and the ends of the other
relationships. -/
structure Dismissed (r : RelationshipId) (s s' : Schema) : Prop where
  sound : s'.Sound
  tableKeys : s'.tables.keys = s.tables.keys
  owner? : ∀ c, s'.columns.contains c = true → s'.owner? c = s.owner? c
  ends : ∀ r', s'.relationships.contains r' = true → r' ≠ r ∧ s.relationships.contains r' = true ∧
    s'.parent? r' = s.parent? r' ∧ s'.child? r' = s.child? r'

theorem dismissed_dropRelationship (hs' : (s'.dropRelationship r).Sound)
    (hkeys : s'.tables.keys = s.tables.keys)
    (howner : ∀ c, s'.columns.contains c = true → s'.owner? c = s.owner? c)
    (hrels : s'.relationships.keys = s.relationships.keys)
    (hp : ∀ r', s'.parent? r' = s.parent? r') (hch : ∀ r', s'.child? r' = s.child? r') :
    Dismissed r s (s'.dropRelationship r) := by
  refine ⟨hs', hkeys, howner, fun r' hr' => ?_⟩
  have h : (s'.relationships.erase r).contains r' = true := hr'
  rw [Roster.contains_erase, Bool.and_eq_true] at h
  have hne : r' ≠ r := by simpa using h.1
  refine ⟨hne, ?_, ?_, ?_⟩
  · rw [← Roster.mem_keys_iff, ← hrels, Roster.mem_keys_iff]
    exact h.2
  · rw [parent?_dropRelationship, if_neg hne, hp]
  · rw [child?_dropRelationship, if_neg hne, hch]

theorem Dismisses.dismissed (h : Dismisses r s s') (hs : s.Sound) : Dismissed r s s' := by
  cases h with
  | gone h =>
      refine ⟨hs, rfl, fun _ _ => rfl, fun r' hr' => ⟨?_, hr', rfl, rfl⟩⟩
      rintro rfl
      rw [h] at hr'
      exact Bool.false_ne_true hr'
  | detached hl h =>
      have hs' := h.sound hs
      obtain ⟨fks, s₁, -, hw, rfl⟩ := h
      have hu := hs.unlinked r
      have hsh := (hu.sound.prune hw).2
      have hf := hsh.frame
      exact dismissed_dropRelationship hs' (hf.keys_tables.trans hu.tableKeys)
        (fun c hc => (hsh.owner? c hc).trans (hu.owner? c))
        (hf.keys_relationships.trans hu.relationshipKeys)
        (fun r' => (hf.parent? r').trans (hu.parent? r'))
        fun r' => (hf.child? r').trans (hu.child? r')
  | discarded hl =>
      have hu := hs.unlinked r
      exact dismissed_dropRelationship (hs.discard r) hu.tableKeys (fun c _ => hu.owner? c)
        hu.relationshipKeys hu.parent?
        hu.child?

/-- After dismissals, exactly the other relationships may be left. -/
theorem dismissed_of_chain (h : Chain Dismisses rs s s') (hs : s.Sound) :
    s'.Sound ∧ s'.tables.keys = s.tables.keys ∧
      ∀ r, s'.relationships.contains r = true → r ∉ rs ∧ s.relationships.contains r = true ∧
        s'.parent? r = s.parent? r ∧ s'.child? r = s.child? r := by
  induction h with
  | nil s => exact ⟨hs, rfl, fun r hr => ⟨List.not_mem_nil, hr, rfl, rfl⟩⟩
  | cons h₁ _ ih =>
      have hd := h₁.dismissed hs
      obtain ⟨hs', hkeys, hrest⟩ := ih hd.sound
      refine ⟨hs', hkeys.trans hd.tableKeys, fun r hr => ?_⟩
      obtain ⟨hmem, hr₁, hp, hch⟩ := hrest r hr
      obtain ⟨hne, hr₀, hp₀, hch₀⟩ := hd.ends r hr₁
      exact ⟨List.not_mem_cons_of_ne_of_not_mem hne hmem, hr₀, hp.trans hp₀, hch.trans hch₀⟩

/-- Whether a relation between schemas covers dismissals: it can be chained, and it holds when a
relationship is unlinked, when the columns that it mapped are checked and when it goes. -/
structure CoversDismissal (R : Schema → Schema → Prop) : Prop where
  refl (s : Schema) : R s s
  trans {s s' s'' : Schema} (h : R s s') (h' : R s' s'') : R s s''
  unlink {s : Schema} (hs : s.Sound) (r : RelationshipId) : R s (s.unlink r)
  check {s s' : Schema} {fks : List ColumnId} (hs : s.Sound)
    (hw : WorksOff Prune.step (fks.map .check) s s') : R s s'
  drop {s : Schema} {r : RelationshipId} (hs' : (s.dropRelationship r).Sound) :
    R s (s.dropRelationship r)

namespace CoversDismissal

variable {R : Schema → Schema → Prop}

theorem detaches (hR : CoversDismissal R) (hs : s.Sound) (h : Detaches r s s') : R s s' := by
  have hs' := h.sound hs
  obtain ⟨fks, s₁, -, hw, rfl⟩ := h
  have hchecked := hR.check (hs.unlinked r).sound hw
  exact hR.trans (hR.trans (hR.unlink hs r) hchecked) (hR.drop hs')

theorem discard (hR : CoversDismissal R) (hs : s.Sound) (r : RelationshipId) :
    R s ((s.unlink r).dropRelationship r) :=
  hR.trans (hR.unlink hs r) (hR.drop (hs.discard r))

theorem dismisses (hR : CoversDismissal R) (hs : s.Sound) (h : Dismisses r s s') : R s s' := by
  cases h with
  | gone _ => exact hR.refl s
  | detached _ h => exact hR.detaches hs h
  | discarded _ => exact hR.discard hs r

theorem chain (hR : CoversDismissal R) (hs : s.Sound) (h : Chain Dismisses rs s s') : R s s' :=
  (h.invariant (J := fun s₁ => s₁.Sound ∧ R s s₁)
    (fun _ _ _ _ h₁ hd => ⟨(hd.dismissed h₁.1).sound, hR.trans h₁.2 (hR.dismisses h₁.1 hd)⟩)
    ⟨hs, hR.refl s⟩).2

end CoversDismissal

/-! ## Erasing a table -/

theorem get?_foldl_erase (cs : List ColumnId) (cols : Roster ColumnId Column) (c : ColumnId) :
    (cs.foldl (fun cols c => cols.erase c) cols).get? c = if c ∈ cs then none else cols.get? c := by
  induction cs generalizing cols with
  | nil => simp
  | cons c' cs ih =>
      rw [List.foldl_cons, ih, Roster.get?_erase]
      by_cases h : c = c' <;> by_cases h' : c ∈ cs <;> simp [h, h']

theorem nodup_keys_foldl_erase (cs : List ColumnId) {cols : Roster ColumnId Column}
    (h : cols.keys.Nodup) : (cs.foldl (fun cols c => cols.erase c) cols).keys.Nodup := by
  induction cs generalizing cols with
  | nil => exact h
  | cons c cs ih => exact ih (Roster.nodup_keys_erase h c)

theorem eraseTable_objects (t : TableId) (i : Nat) (s : Schema) :
    SameObjects { s with
      tables := s.tables.erase t
      columns := (s.columnsOf t).foldl (fun cols c => cols.erase c) s.columns } (s.eraseTable t i) :=
  SameObjects.raise _ _

theorem get?_eraseTable (t t' : TableId) (i : Nat) (s : Schema) :
    (s.eraseTable t i).tables.get? t' = if t' = t then none else s.tables.get? t' := by
  rw [(eraseTable_objects t i s).tables]
  exact Roster.get?_erase ..

theorem get?_column_eraseTable (t : TableId) (i : Nat) (s : Schema) (c : ColumnId) :
    (s.eraseTable t i).columns.get? c = if c ∈ s.columnsOf t then none else s.columns.get? c := by
  rw [(eraseTable_objects t i s).columns]
  exact get?_foldl_erase _ _ _

theorem relationships_eraseTable (t : TableId) (i : Nat) (s : Schema) :
    (s.eraseTable t i).relationships = s.relationships := (eraseTable_objects t i s).relationships

theorem columnsOf_eraseTable (t t' : TableId) (i : Nat) (s : Schema) :
    (s.eraseTable t i).columnsOf t' = if t' = t then [] else s.columnsOf t' := by
  unfold columnsOf
  rw [get?_eraseTable]
  split <;> rfl

theorem exportsOf_eraseTable (t t' : TableId) (i : Nat) (s : Schema) :
    (s.eraseTable t i).exportsOf t' = if t' = t then [] else s.exportsOf t' := by
  unfold exportsOf
  rw [get?_eraseTable]
  split <;> rfl

theorem importsOf_eraseTable (t t' : TableId) (i : Nat) (s : Schema) :
    (s.eraseTable t i).importsOf t' = if t' = t then [] else s.importsOf t' := by
  unfold importsOf
  rw [get?_eraseTable]
  split <;> rfl

theorem sublist_eraseTable (t t' : TableId) (i : Nat) (s : Schema) :
    ((s.eraseTable t i).columnsOf t').Sublist (s.columnsOf t') ∧
      ((s.eraseTable t i).exportsOf t').Sublist (s.exportsOf t') ∧
      ((s.eraseTable t i).importsOf t').Sublist (s.importsOf t') := by
  rw [columnsOf_eraseTable, exportsOf_eraseTable, importsOf_eraseTable]
  split
  · exact ⟨List.nil_sublist _, List.nil_sublist _, List.nil_sublist _⟩
  · exact ⟨.refl _, .refl _, .refl _⟩

theorem parent?_eraseTable (t : TableId) (i : Nat) (s : Schema) (r : RelationshipId) :
    (s.eraseTable t i).parent? r = s.parent? r := by
  unfold parent?
  rw [relationships_eraseTable]

theorem child?_eraseTable (t : TableId) (i : Nat) (s : Schema) (r : RelationshipId) :
    (s.eraseTable t i).child? r = s.child? r := by
  unfold child?
  rw [relationships_eraseTable]

theorem mappingsOf_eraseTable (t : TableId) (i : Nat) (s : Schema) (r : RelationshipId) :
    (s.eraseTable t i).mappingsOf r = s.mappingsOf r := by
  unfold mappingsOf
  rw [relationships_eraseTable]

theorem isLive_of_eraseTable {i : Nat} (hl : (s.eraseTable t i).isLive r = true) :
    s.isLive r = true := by
  obtain ⟨p, ch, hp, hch, hexp, himp⟩ := isLive_iff.mp hl
  rw [parent?_eraseTable] at hp
  rw [child?_eraseTable] at hch
  exact isLive_iff.mpr ⟨p, ch, hp, hch, (sublist_eraseTable t p i s).2.1.mem hexp,
    (sublist_eraseTable t ch i s).2.2.mem himp⟩

theorem Sound.owner?_eraseTable (hs : s.Sound) (t : TableId) (i : Nat) (c : ColumnId) :
    (s.eraseTable t i).owner? c = if s.owner? c = some t then none else s.owner? c := by
  have hlisted := hs.listed t c
  unfold Schema.owner? at hlisted ⊢
  rw [get?_column_eraseTable]
  by_cases h : c ∈ s.columnsOf t
  · simp [h, hlisted.mp h]
  · simp [h, hlisted.not.mp h]

theorem Sound.contains_column_eraseTable (hs : s.Sound) (t : TableId) (i : Nat) (c : ColumnId) :
    (s.eraseTable t i).columns.contains c =
      (!decide (s.owner? c = some t) && s.columns.contains c) := by
  unfold Roster.contains
  rw [get?_column_eraseTable]
  by_cases h : s.owner? c = some t
  · simp [(hs.listed t c).mpr h, h]
  · have hnot : c ∉ s.columnsOf t := (hs.listed t c).not.mpr h
    simp [hnot, h]

/-- A table without relationships can be taken out together with its columns. -/
theorem Sound.eraseTable (hs : s.Sound) (t : TableId) (i : Nat)
    (hp : ∀ r, s.parent? r ≠ some t) (hch : ∀ r, s.child? r ≠ some t) : (s.eraseTable t i).Sound := by
  have ho := eraseTable_objects t i s
  have hsub := fun t' => sublist_eraseTable t t' i s
  have hstored : ∀ t', t' ≠ t → s.tables.contains t' = true →
      (s.eraseTable t i).tables.contains t' = true := by
    intro t' hne ht'
    unfold Roster.contains at ht' ⊢
    rwa [get?_eraseTable, if_neg hne]
  have hcolumn : ∀ c, (s.eraseTable t i).columns.contains c = true →
      s.owner? c ≠ some t ∧ s.columns.contains c = true := by
    intro c hc
    rw [hs.contains_column_eraseTable] at hc
    simpa using hc
  constructor
  case tables_nodup =>
    rw [ho.tables]
    exact Roster.nodup_keys_erase hs.tables_nodup t
  case columns_nodup =>
    rw [ho.columns]
    exact nodup_keys_foldl_erase _ hs.columns_nodup
  case relationships_nodup =>
    rw [relationships_eraseTable]
    exact hs.relationships_nodup
  case columnsOf_nodup => exact fun t' => (hs.columnsOf_nodup t').sublist (hsub t').1
  case exportsOf_nodup => exact fun t' => (hs.exportsOf_nodup t').sublist (hsub t').2.1
  case importsOf_nodup => exact fun t' => (hs.importsOf_nodup t').sublist (hsub t').2.2
  case listed =>
    intro t' c
    rw [columnsOf_eraseTable, hs.owner?_eraseTable]
    by_cases h : t' = t
    · by_cases ho : s.owner? c = some t <;> simp [h, ho]
    · by_cases ho : s.owner? c = some t
      · simp [h, ho, hs.listed, Ne.symm h]
      · simp [h, ho, hs.listed]
  case owned =>
    intro c hc
    obtain ⟨hnot, hc⟩ := hcolumn c hc
    rw [hs.owner?_eraseTable, if_neg hnot]
    exact hs.owned c hc
  case exported =>
    intro t' r hr
    rw [parent?_eraseTable]
    exact hs.exported t' r ((hsub t').2.1.mem hr)
  case imported =>
    intro t' r hr
    rw [child?_eraseTable]
    exact hs.imported t' r ((hsub t').2.2.mem hr)
  case parent_stored =>
    intro r t' ht'
    rw [parent?_eraseTable] at ht'
    exact hstored t' (fun h => hp r (h ▸ ht')) (hs.parent_stored r t' ht')
  case child_stored =>
    intro r t' ht'
    rw [child?_eraseTable] at ht'
    exact hstored t' (fun h => hch r (h ▸ ht')) (hs.child_stored r t' ht')
  -- a mapping has its columns in the ends of its relationship, which stay
  case mapped =>
    intro r m hm
    rw [mappingsOf_eraseTable] at hm
    obtain ⟨p, ch, hp', hch', hpk, hfk⟩ := hs.mapped r m hm
    have hpt : p ≠ t := fun h => hp r (h ▸ hp')
    have hct : ch ≠ t := fun h => hch r (h ▸ hch')
    refine ⟨p, ch, (parent?_eraseTable ..).trans hp', (child?_eraseTable ..).trans hch', ?_, ?_⟩
    · rw [hs.owner?_eraseTable, hpk, if_neg fun h => hpt (Option.some.inj h)]
    · rw [hs.owner?_eraseTable, hfk, if_neg fun h => hct (Option.some.inj h)]
  case pks_nodup =>
    intro r
    rw [mappingsOf_eraseTable]
    exact hs.pks_nodup r
  case table_fresh =>
    intro t' ht'
    rw [ho.tables, Roster.contains_erase, Bool.and_eq_true] at ht'
    rw [ho.lastTable]
    exact hs.table_fresh t' ht'.2
  case column_fresh =>
    intro c hc
    rw [ho.lastColumn]
    exact hs.column_fresh c (hcolumn c hc).2
  case relationship_fresh =>
    rw [relationships_eraseTable, ho.lastRelationship]
    exact hs.relationship_fresh

/-- Whether a table is removed: its relationships are dismissed, then it is erased. -/
def Removes (t : TableId) (s s' : Schema) : Prop :=
  s.tables.contains t = true ∧ ∃ s₁ i, Chain Dismisses (s.relationshipsOf t) s s₁ ∧
    SameObjects (s₁.eraseTable t i) s'

/-- Once the relationships of a table are dismissed, none has it as an end. -/
theorem no_ends_of_chain (h : Chain Dismisses (s.relationshipsOf t) s s') (hs : s.Sound) :
    (∀ r, s'.parent? r ≠ some t) ∧ ∀ r, s'.child? r ≠ some t := by
  obtain ⟨-, -, hrest⟩ := dismissed_of_chain h hs
  have hmem : ∀ r, s.parent? r = some t ∨ s.child? r = some t → r ∈ s.relationshipsOf t := by
    intro r hr
    unfold relationshipsOf
    rw [Roster.mem_keysWhere hs.relationships_nodup]
    rcases hr with hr | hr
    · obtain ⟨rel, hrel, hp⟩ := Option.bind_eq_some_iff.mp hr
      exact ⟨rel, hrel, by simp [hp]⟩
    · obtain ⟨rel, hrel, hch⟩ := Option.bind_eq_some_iff.mp hr
      exact ⟨rel, hrel, by simp [hch]⟩
  constructor
  · intro r hr
    obtain ⟨hnot, -, hp, -⟩ := hrest r (contains_of_parent? hr)
    exact hnot (hmem r (.inl (hp ▸ hr)))
  · intro r hr
    obtain ⟨hnot, -, -, hch⟩ := hrest r (contains_of_child? hr)
    exact hnot (hmem r (.inr (hch ▸ hr)))

theorem Removes.sound (h : Removes t s s') (hs : s.Sound) : s'.Sound := by
  obtain ⟨-, s₁, i, hd, ho⟩ := h
  obtain ⟨hp, hch⟩ := no_ends_of_chain hd hs
  exact ((dismissed_of_chain hd hs).1.eraseTable t i hp hch).of_sameObjects ho

end Schema

namespace Edit

open Schema

variable {s : Schema} {t : TableId} {r : RelationshipId}

theorem addTable_ends (tbl : Table) (s : Schema) :
    (addTable tbl).Ends (fun _ s' => s' = s.appendTable tbl) (fun _ _ => False) s := by
  unfold addTable
  simp only [ends_bind, ends_change, ends_ask]

theorem dismissRelationship_ends (hs : s.Sound) (r : RelationshipId) :
    (dismissRelationship r).Ends (fun _ s' => Dismisses r s s') (fun _ _ => False) s := by
  unfold dismissRelationship
  simp only [ends_bind, ends_get]
  cases hr : s.relationships.contains r with
  | false => exact .gone hr
  | true =>
      cases hl : s.isLive r with
      | true =>
          simp only [if_true, ends_discard]
          exact (detachCascade_ends hs hl).imp fun _ _ h => .detached hl h
      | false =>
          simp only [if_true, Bool.false_eq_true, if_false, ends_discard]
          refine (discardRelationship_ends hs hr).imp fun _ s' h => ?_
          rw [h]
          exact .discarded hl

/-- Removing a stored table never fails. -/
theorem removeTableCascade_ends (hs : s.Sound) (ht : s.tables.contains t = true) :
    (removeTableCascade t).Ends (fun _ s' => Removes t s s') (fun _ _ => False) s := by
  unfold removeTableCascade
  simp only [ends_bind, ends_ask]
  refine (Ends.forM_chain (R := Dismisses) (P := Sound) (fun r _ s₁ hs₁ =>
    (dismissRelationship_ends hs₁ r).imp fun _ s₂ h => ⟨h, (h.dismissed hs₁).sound⟩) hs).imp
    fun _ s₁ h₁ => ?_
  obtain ⟨h₁, hs₁⟩ := h₁
  obtain ⟨-, hkeys, -⟩ := dismissed_of_chain h₁ hs
  have ht₁ : s₁.tables.contains t = true := by
    rw [← Roster.mem_keys_iff, hkeys, Roster.mem_keys_iff]
    exact ht
  obtain ⟨tbl, htbl⟩ := (Roster.contains_iff _ _).mp ht₁
  -- the schema in which the table's events have been released
  set s₂ := (s₁.changeTable t fun tbl => { tbl with inSecondaryChange := false }).release t with hs₂
  have htbl₂ : s₂.tables.get? t = some { tbl with inSecondaryChange := false } := by
    simp [hs₂, release, changeTable, htbl]
  obtain ⟨i, hi⟩ := Roster.indexOf?_of_contains (Roster.contains_of_get? htbl₂)
  simp only [ends_discard, ends_table_of htbl, ends_change, ends_get]
  rw [← hs₂, ends_table_of htbl₂, hi, ends_require_some]
  refine ⟨ht, s₁, i, h₁, (eraseTable_objects t i s₁).symm.trans (.trans ?_ (eraseTable_objects t i s₂))⟩
  have hcols : s₂.columnsOf t = s₁.columnsOf t := by
    unfold columnsOf
    rw [htbl₂, htbl]
    rfl
  constructor
  case columns =>
    rw [hcols]
    rfl
  all_goals simp [hs₂, release, changeTable, Roster.erase_modify]

theorem removeTable_atomic (hs : s.Sound) (t : TableId) :
    (removeTable t).Atomic (fun _ s' => AmidEvents (Removes t) s s') s := by
  unfold removeTable Atomic
  simp only [ends_bind, ends_table]
  refine ⟨fun tbl htbl => ?_, fun _ => .refl s⟩
  exact (ends_compound_amid _ fun s₁ h₁ => removeTableCascade_ends (hs.of_sameObjects h₁)
    (h₁.tables ▸ Roster.contains_of_get? htbl)).atomic

end Edit

end KeyedSchema
