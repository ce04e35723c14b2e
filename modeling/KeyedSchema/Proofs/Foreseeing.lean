import KeyedSchema.Proofs.Normalizing
import KeyedSchema.Proofs.Resuming

/-!
# Foreseeing — whether there is anything to catch up with

Whether a table that leaves secondary-change mode has to catch up is asked first (`needsReconcile`):
of the ranks of its key, and of the mappings of the live relationships that it exports. Catching up
itself (`reconcileExported`) starts by normalizing the key, and this orders the mappings of all
relationships that are registered with the table, those included that have no child yet or are not
registered there.

So the answer is right about keys and live relationships. What is half registered it does not see:
such a relationship is put in order if something else has to be caught up with, and not otherwise.
-/

namespace KeyedSchema

namespace Schema

variable {s s' : Schema} {t : TableId} {r : RelationshipId} {depth : Nat}
  {key xs : List ColumnId} {rs : List RelationshipId}

/-! ## Nothing to do -/

/-- Columns that are all mapped are not mapped again. -/
theorem worksOff_map_of_mapped (h : ∀ x ∈ xs, x ∈ (s.mappingsOf r).map Mapping.pk) :
    WorksOff Grow.step (xs.map (.map depth r)) s s := by
  induction xs with
  | nil => exact .done s
  | cons x xs ih =>
      have hstep : (Grow.map depth r x).step s = ([], s) := if_pos (h x (List.mem_cons_self ..))
      refine .task ?_
      rw [hstep]
      exact ih fun y hy => h y (List.mem_cons_of_mem _ hy)

/-- Of a relationship that follows the key nothing is brought in line. -/
theorem Follows.reconciles (h : Follows key r s)
    (hkey : ∀ x ∈ key, s.columns.contains x = true) : Reconciles key r s s := by
  refine ⟨s, s, worksOff_sweep_of_no_strays fun m hm => ?_, hkey, ?_,
    (syncMappingOrder_eq_self h.ordered).symm⟩
  · exact (h.mem_iff m.pk).mp (List.mem_map_of_mem hm)
  · exact worksOff_map_of_mapped fun x hx => (h.mem_iff x).mpr hx

theorem chain_of_follows (h : ∀ r ∈ rs, Follows key r s)
    (hkey : ∀ x ∈ key, s.columns.contains x = true) : Chain (Reconciles key) rs s s := by
  induction rs with
  | nil => exact .nil s
  | cons r rs ih =>
      exact .cons ((h r (List.mem_cons_self ..)).reconciles hkey)
        (ih fun r' hr' => h r' (List.mem_cons_of_mem _ hr'))

/-- With nothing to catch up with, what a table exports follows its key once that is normalized. -/
theorem follows_normalizeKey (hneeds : s.needsReconcile t = false) (hr : r ∈ s.liveExportsOf t) :
    Follows (s.primaryKey t) r (s.normalizeKey t none) := by
  refine ⟨inOrder_normalizeKey none (mem_liveExportsOf.mp hr).1, fun x => ?_⟩
  rw [← (needsReconcile_eq_false.mp hneeds).2 r hr]
  exact (((reranks_normalizeKey t none s).mappingsOf r).map Mapping.pk).mem_iff

/-- With nothing to catch up with, catching up is never refused, and normalizes the key. -/
theorem Sound.perform_reconcileExported (hs : s.Sound) (ht : s.tables.contains t = true)
    (hneeds : s.needsReconcile t = false) :
    (Edit.reconcileExported t).perform s = (.ok (), s.normalizeKey t none) := by
  have hre := reranks_normalizeKey t none s
  have hs₁ := hre.sound hs
  have hrs := fun r hr => hs₁.reconcilable (r := r) (t := t) hr
  have hchain : Chain (Reconciles ((s.normalizeKey t none).primaryKey t))
      ((s.normalizeKey t none).liveExportsOf t) (s.normalizeKey t none) (s.normalizeKey t none) := by
    refine chain_of_follows (fun r hr => ?_) fun x hx => ?_
    · rw [hre.sameFrame.liveExportsOf] at hr
      rw [hs.primaryKey_normalizeKey]
      exact follows_normalizeKey hneeds hr
    · exact contains_of_isKey (mem_primaryKey.mp hx).2
  -- the other end would be a stall, which loses a column of the key
  refine Edit.Ends.perform_eq ((Edit.reconcileExported_ends hs ht).mono (fun _ s' h => ⟨rfl, ?_⟩)
    fun _ s' h => ?_)
  · exact Chain.unique (fun _ _ _ _ h h' => h.unique h') h hchain
  · exact not_losesAny_of_chain hchain hs₁ hrs (h.losesAny hs₁ hrs)

/-! ## What is not seen -/

/-- Whether the second schema is the first one with the mappings of those relationships in order
that a table exports and that are not live. -/
structure Rearranges (t : TableId) (s s' : Schema) : Prop where
  tables : s'.tables = s.tables
  columns : s'.columns = s.columns
  live : ∀ r, s.isLive r = true → s'.mappingsOf r = s.mappingsOf r
  halfway : ∀ r ∈ s.exportsOf t, s.isLive r = false →
    s'.mappingsOf r = s.inKeyOrder (s.mappingsOf r)
  others : ∀ r, r ∉ s.exportsOf t → s'.mappingsOf r = s.mappingsOf r
  /-- One event tells of each relationship that moved. -/
  raised : s'.raised = s.raised ++
    ((s.exportsOf t).filter fun r => s'.mappingsOf r ≠ s.mappingsOf r).map fun r =>
      .structureChanged (.relationship r)

/-- Whether no table, column, rank or mapping differs, and nothing has been told. -/
structure Unmoved (s s' : Schema) : Prop where
  tables : s'.tables = s.tables
  columns : s'.columns = s.columns
  mappings : ∀ r, s'.mappingsOf r = s.mappingsOf r
  raised : s'.raised = s.raised

/-- With nothing to catch up with, normalizing the key moves what is half registered. -/
theorem Sound.rearranges (hs : s.Sound) (hneeds : s.needsReconcile t = false) :
    Rearranges t s (s.normalizeKey t none) := by
  obtain ⟨hranks, hmaps⟩ := needsReconcile_eq_false.mp hneeds
  have hnormal := normalizeKey_of_ranks hranks
  have hnodup := hs.exportsOf_nodup t
  have hordered : ∀ r ∈ s.exportsOf t,
      (s.normalizeKey t none).mappingsOf r = s.inKeyOrder (s.mappingsOf r) := fun r hr => by
    rw [hnormal, mappingsOf_syncAll hnodup s hr]
  have hothers : ∀ r, r ∉ s.exportsOf t → (s.normalizeKey t none).mappingsOf r = s.mappingsOf r :=
    fun r hr => mappingsOf_normalizeKey_of_notMem none hr
  refine ⟨(reranks_normalizeKey t none s).tables, ?_, fun r hl => ?_, fun r hr _ => hordered r hr,
    hothers, ?_⟩
  · rw [hnormal, columns_syncAll]
  · by_cases hr : r ∈ s.exportsOf t
    · exact mappingsOf_normalizeKey_of_inOrder hs hranks
        (inOrder_of_mappings_eq (hmaps r (mem_liveExportsOf.mpr ⟨hr, hl⟩)))
    · exact hothers r hr
  · conv_lhs => rw [hnormal, raised_syncAll hnodup]
    refine congrArg (_ ++ List.map _ ·) (List.filter_congr fun r hr => ?_)
    rw [hordered r hr]

/-- With what is half registered in order, too, catching up does nothing. -/
theorem Sound.perform_reconcileExported_of_inOrder (hs : s.Sound)
    (ht : s.tables.contains t = true) (hneeds : s.needsReconcile t = false)
    (hhalfway : ∀ r ∈ s.exportsOf t, s.isLive r = false → s.InOrder r) :
    (Edit.reconcileExported t).perform s = (.ok (), s) := by
  obtain ⟨hranks, hmaps⟩ := needsReconcile_eq_false.mp hneeds
  have hnormal : s.normalizeKey t none = s := by
    refine normalizeKey_eq_self hranks fun r hr => ?_
    cases hl : s.isLive r with
    | true => exact inOrder_of_mappings_eq (hmaps r (mem_liveExportsOf.mpr ⟨hr, hl⟩))
    | false => exact hhalfway r hr hl
  rw [hs.perform_reconcileExported ht hneeds, hnormal]

/-- What catching up leaves is in order. If it moves nothing, that is what there was. -/
theorem Sound.inOrder_of_unmoved (hs : s.Sound) (ht : s.tables.contains t = true)
    (hneeds : s.needsReconcile t = false)
    (hok : (Edit.reconcileExported t).perform s = (.ok (), s')) (h : Unmoved s s')
    (hr : r ∈ s.exportsOf t) : s.InOrder r := by
  obtain rfl : s.normalizeKey t none = s' :=
    (Prod.mk.inj ((hs.perform_reconcileExported ht hneeds).symm.trans hok)).2
  exact (inOrder_normalizeKey none hr).congr (h.mappings r).symm fun m _ =>
    rank?_of_columns h.columns.symm m.pk

/-! ## What is seen -/

/-- Catching up that goes through leaves nothing to catch up with. -/
theorem Sound.reconciled (hs : s.Sound) (ha : s.Acyclic) (ht : s.tables.contains t = true)
    (hok : (Edit.reconcileExported t).perform s = (.ok (), s')) :
    s'.needsReconcile t = false ∧ SameFrame s s' := by
  have hchain := (Edit.reconcileExported_ends hs ht).of_ok hok
  have hre := reranks_normalizeKey t none s
  have hs₁ := hre.sound hs
  have hframe := (reconciled_of_chain hchain hs₁ fun r hr => hs₁.reconcilable hr).2
  exact ⟨((hs.resuming_normalizeKey ha t).chain hchain).needsReconcile,
    hre.sameFrame.trans hframe⟩

/-- If catching up goes through and changes no key and no live relationship, there was nothing to
catch up with. -/
theorem Sound.needsReconcile_of_unchanged (hs : s.Sound) (ha : s.Acyclic)
    (ht : s.tables.contains t = true)
    (hok : (Edit.reconcileExported t).perform s = (.ok (), s')) (htables : s'.tables = s.tables)
    (hcolumns : s'.columns = s.columns)
    (hlive : ∀ r, s.isLive r = true → s'.mappingsOf r = s.mappingsOf r) :
    s.needsReconcile t = false := by
  obtain ⟨hneeds, hframe⟩ := hs.reconciled ha ht hok
  refine needsReconcile_of_mappings hneeds hcolumns.symm
    (by rw [columnsOf, columnsOf, htables]) fun r hr => ?_
  rw [← hlive r (mem_liveExportsOf.mp hr).2]
  exact (needsReconcile_eq_false.mp hneeds).2 r (hframe.liveExportsOf t ▸ hr)

/-! ## What the answer says -/

/-- In a schema that can be reached, there is nothing to catch up with exactly if catching up goes
through and at most orders the mappings of what is half registered with the table. It goes through
without any effect exactly if these are in order, too. -/
theorem Reachable.reconciling_foreseen (h : s.Reachable) (ht : s.tables.contains t = true) :
    (s.needsReconcile t = false ↔
      ∃ s', (Edit.reconcileExported t).perform s = (.ok (), s') ∧ Rearranges t s s') ∧
    ((∃ s', (Edit.reconcileExported t).perform s = (.ok (), s') ∧ Unmoved s s') ↔
      s.needsReconcile t = false ∧ ∀ r ∈ s.exportsOf t, s.isLive r = false → s.InOrder r) := by
  have hs := h.sound
  constructor
  · constructor
    · exact fun hneeds => ⟨_, hs.perform_reconcileExported ht hneeds, hs.rearranges hneeds⟩
    · rintro ⟨s', hok, hmoved⟩
      exact hs.needsReconcile_of_unchanged h.acyclic ht hok hmoved.tables hmoved.columns
        hmoved.live
  · constructor
    · rintro ⟨s', hok, hunmoved⟩
      have hneeds := hs.needsReconcile_of_unchanged h.acyclic ht hok hunmoved.tables
        hunmoved.columns fun r _ => hunmoved.mappings r
      exact ⟨hneeds, fun r hr _ => hs.inOrder_of_unmoved ht hneeds hok hunmoved hr⟩
    · rintro ⟨hneeds, hhalfway⟩
      have hok := hs.perform_reconcileExported_of_inOrder ht hneeds hhalfway
      exact ⟨s, hok, rfl, rfl, fun _ => rfl, rfl⟩

/-- A table with two key columns and a relationship that is registered with it but not with the
child, and maps the columns against their order. -/
def halfwayMoves : List Move :=
  [.edit (.addTable { name := "a" }), .edit (.addTable { name := "b" }),
    .edit (.addColumn ⟨1⟩ { name := "x", rank := some 0 }),
    .edit (.addColumn ⟨1⟩ { name := "y", rank := some 1 }),
    .edit (.addColumn ⟨2⟩ { name := "x" }), .edit (.addColumn ⟨2⟩ { name := "y" }),
    .edit (.createRelationship { name := "ab" }),
    .edit (.setParent ⟨1⟩ (some ⟨1⟩)), .edit (.setChild ⟨1⟩ (some ⟨2⟩)),
    .edit (.addExportedKey ⟨1⟩ ⟨1⟩),
    .edit (.addMapping ⟨1⟩ ⟨2⟩ ⟨4⟩), .edit (.addMapping ⟨1⟩ ⟨1⟩ ⟨3⟩)]

/-- The tables with the relationship half registered. -/
def halfway : Schema := ((Moment.start {}).run halfwayMoves).schema

/-- The table cascades and there is nothing to catch up with, yet catching up would turn the mappings
of the relationship around. -/
theorem reconciling_foreseen_halfway : halfway.Reachable ∧ halfway.cascades ⟨1⟩ = true ∧
    halfway.needsReconcile ⟨1⟩ = false ∧
    (halfway.mappingsOf ⟨1⟩).map Mapping.pk = [⟨2⟩, ⟨1⟩] ∧
    (∃ s', (Edit.reconcileExported ⟨1⟩).perform halfway = (.ok (), s') ∧
      Rearranges ⟨1⟩ halfway s' ∧ (s'.mappingsOf ⟨1⟩).map Mapping.pk = [⟨1⟩, ⟨2⟩]) ∧
    ¬ ∃ s', (Edit.reconcileExported ⟨1⟩).perform halfway = (.ok (), s') ∧ Unmoved halfway s' := by
  have hreach : halfway.Reachable := ⟨{}, halfwayMoves, rfl⟩
  have hneeds : halfway.needsReconcile ⟨1⟩ = false := by decide +kernel
  have hmappings : (halfway.mappingsOf ⟨1⟩).map Mapping.pk = [⟨2⟩, ⟨1⟩] := by decide +kernel
  have hordered : (halfway.inKeyOrder (halfway.mappingsOf ⟨1⟩)).map Mapping.pk = [⟨1⟩, ⟨2⟩] := by
    decide +kernel
  obtain ⟨⟨hforeseen, -⟩, hunmoved⟩ :=
    hreach.reconciling_foreseen (t := ⟨1⟩) (by decide +kernel)
  obtain ⟨s', hok, hmoved⟩ := hforeseen hneeds
  have hturned := hmoved.halfway ⟨1⟩ (by decide +kernel) (by decide +kernel)
  refine ⟨hreach, by decide +kernel, hneeds, hmappings, ⟨s', hok, hmoved, hturned ▸ hordered⟩,
    fun hnot => ?_⟩
  have hord := (hunmoved.mp hnot).2 ⟨1⟩ (by decide +kernel) (by decide +kernel)
  rw [inKeyOrder, sortOn_of_sorted _ _ hord, hmappings] at hordered
  exact absurd hordered (by decide)

end Schema

end KeyedSchema
