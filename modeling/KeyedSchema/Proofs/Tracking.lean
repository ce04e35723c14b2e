import KeyedSchema.Proofs.Effects

/-!
# Tracking — what was raised rebuilds the schema

Each effect raises events that fit the schema before it and rebuild the schema after it: a table or a
column is told of with the place that it goes to or comes from, and a changed attribute with the
value that the column had. So the events that were raised, replayed from the start, rebuild the
order of the tables and the lists of each; and the events of a column, replayed from what was put in,
rebuild its attributes.
-/

namespace KeyedSchema

/-! ## Events that leave a replica alone -/

namespace Replica

variable {m m' : Replica} {e : Event} {es : List Event} {t : TableId}

/-- An event about no table leaves a replica alone. -/
theorem hear?_of_quiet (hschema : e.isOfSchema = false) (habout : e.about? = none) :
    m.hear? e = some m := by
  refine hear?_eq_some.mpr ⟨Event.tablesAfter?_of_not hschema _, fun t => ?_⟩
  unfold listsStep?
  rw [habout]
  exact if_neg (Option.some_ne_none t).symm

theorem replay?_of_quiet (h : ∀ e ∈ es, e.isOfSchema = false ∧ e.about? = none) :
    m.replay? es = some m := by
  induction es with
  | nil => rfl
  | cons e es ih =>
      rw [List.forall_mem_cons] at h
      rw [replay?_cons, hear?_of_quiet h.1.1 h.1.2]
      exact ih h.2

theorem replay?_singleton : m.replay? [e] = m.hear? e := by
  rw [replay?_cons]
  cases m.hear? e <;> rfl

end Replica

namespace Schema

variable {s s' s'' : Schema} {t : TableId} {c : ColumnId} {e : Event} {es : List Event}

theorem replica_congr (h : s'.tables = s.tables) : s'.replica = s.replica := by
  unfold replica
  rw [h]

/-- What a table has besides its lists is no part of a replica. -/
theorem replica_changeTable (t : TableId) {f : Table → Table}
    (hlists : ∀ tbl, (f tbl).lists = tbl.lists) (s : Schema) :
    (s.changeTable t f).replica = s.replica := by
  refine Replica.ext (Roster.keys_modify _ _ _) (funext fun t' => ?_)
  exact Roster.read_modify _ _ _ (Option.map Table.lists) fun tbl => congrArg some (hlists tbl)

/-- An event that tells of one table's lists. -/
theorem hear?_relist {tbl : Table} {f : Table → Table} (htbl : s.tables.get? t = some tbl)
    (hsource : e.source? = some (.table t)) (habout : e.about? = some t)
    (hlists : e.listsAfter? (some tbl.lists) = some (some (f tbl).lists))
    (htables : s'.tables = s.tables.modify t f) : s.replica.hear? e = some s'.replica := by
  refine Replica.hear?_eq_some.mpr ⟨?_, fun t' => ?_⟩
  · have hkeys : s'.replica.tables = s.replica.tables := by
      simp only [replica, htables, Roster.keys_modify]
    have hschema : e.isOfSchema = false := by
      unfold Event.isOfSchema
      rw [hsource]
      rfl
    rw [Event.tablesAfter?_of_not hschema, hkeys]
  · simp only [Replica.listsStep?, replica, habout, htables, Roster.get?_modify, Option.some.injEq]
    -- the lists of other tables are neither told of nor changed
    by_cases h : t = t'
    · subst h
      rw [if_pos rfl, if_pos rfl, htbl]
      exact hlists
    · rw [if_neg h, if_neg (Ne.symm h)]

/-- An event that tells of a new table, which comes last. -/
theorem hear?_appendTable (ht : s.tables.contains t = false) {tbl : Table}
    (hlists : tbl.lists = {}) (htables : s'.tables = s.tables.insert t tbl) :
    s.replica.hear? (.childInserted .schema (.table t) s.tables.size) = some s'.replica := by
  refine Replica.hear?_eq_some.mpr ⟨?_, fun t' => ?_⟩
  · have hkeys : s'.tables.keys = s.tables.keys ++ [t] := by
      rw [htables, Roster.keys_insert, if_neg (Bool.eq_false_iff.mp ht)]
    simp only [Event.tablesAfter?, replica, hkeys, Roster.size_eq_length_keys]
    exact insertAt?_length t s.tables.keys
  · simp only [Replica.listsStep?, Event.about?, replica, htables, Roster.get?_insert,
      Option.some.injEq]
    by_cases h : t = t'
    · subst h
      rw [if_pos rfl, if_pos rfl, (Roster.contains_eq_false_iff _ _).mp ht, Option.map_some, hlists]
      rfl
    · rw [if_neg h, if_neg (Ne.symm h)]

/-- An event that tells of a table that goes. -/
theorem hear?_eraseTable (hs : s.tables.keys.Nodup) {i : Nat} (hi : s.tables.indexOf? t = some i)
    (htables : s'.tables = s.tables.erase t) :
    s.replica.hear? (.childRemoved .schema (.table t) i) = some s'.replica := by
  refine Replica.hear?_eq_some.mpr ⟨?_, fun t' => ?_⟩
  · have hkeys : s'.tables.keys = s.tables.keys.eraseIdx i := by
      -- the table stands once among the keys, so the place says which one goes
      have herase : s.tables.keys.erase t = s.tables.keys.eraseIdx i := by
        rw [List.erase_eq_eraseIdx, show s.tables.keys.idxOf? t = some i from hi]
      rw [htables, Roster.keys_erase, ← herase, hs.erase_eq_filter]
      exact List.filter_congr fun t' _ => by by_cases h : t' = t <;> simp [h]
    simp only [Event.tablesAfter?, replica, hkeys]
    exact removeAt?_of_idxOf? hi
  · simp only [Replica.listsStep?, Event.about?, replica, htables, Roster.get?_erase,
      Option.some.injEq]
    by_cases h : t = t'
    · subst h
      rw [if_pos rfl, if_pos rfl]
      rfl
    · rw [if_neg h, if_neg (Ne.symm h)]

/-! ## Tracked schemas -/

/-- Whether what was raised rebuilds the schema. -/
structure Tracked (s : Schema) : Prop where
  lists : ({} : Replica).replay? s.raised = some s.replica
  columns : ∀ c col, s.columns.get? c = some col →
    ∃ origin, s.origins.get? c = some origin ∧ origin.replay? c s.raised = some col

namespace Tracked

theorem ofConfig (config : Config) : (ofConfig config).Tracked := ⟨rfl, fun _ _ h => nomatch h⟩

/-- Further events that fit and rebuild what comes of the schema. -/
theorem extend (h : s.Tracked) (hraised : s'.raised = s.raised ++ es)
    (hlists : s.replica.replay? es = some s'.replica) (horigins : s'.origins = s.origins)
    (hcolumns : ∀ c col', s'.columns.get? c = some col' →
      ∃ col, s.columns.get? c = some col ∧ col.replay? c es = some col') : s'.Tracked := by
  constructor
  · rw [hraised, Replica.replay?_append, h.lists]
    exact hlists
  · intro c col' hcol'
    obtain ⟨col, hcol, htold⟩ := hcolumns c col' hcol'
    obtain ⟨origin, horigin, hreplay⟩ := h.columns c col hcol
    refine ⟨origin, horigins ▸ horigin, ?_⟩
    rw [hraised, Column.replay?_append, hreplay]
    exact htold

/-- Further events that tell of no attribute. -/
theorem extend_lists (h : s.Tracked) (hraised : s'.raised = s.raised ++ es)
    (hlists : s.replica.replay? es = some s'.replica) (horigins : s'.origins = s.origins)
    (hcolumns : ∀ c col, s'.columns.get? c = some col → s.columns.get? c = some col)
    (hes : ∀ e ∈ es, ∀ c, e.source? ≠ some (.column c)) : s'.Tracked :=
  h.extend hraised hlists horigins fun c col hcol =>
    ⟨col, hcolumns c col hcol, Column.replay?_of_ne (fun e he => hes e he c) col⟩

/-- Further events that tell of no table and no attribute. -/
theorem extend_quiet (h : s.Tracked) (hraised : s'.raised = s.raised ++ es)
    (hreplica : s'.replica = s.replica) (horigins : s'.origins = s.origins)
    (hcolumns : s'.columns = s.columns)
    (hes : ∀ e ∈ es, e.isOfSchema = false ∧ e.about? = none ∧ ∀ c, e.source? ≠ some (.column c)) :
    s'.Tracked := by
  refine h.extend_lists hraised ?_ horigins (fun c col hcol => hcolumns ▸ hcol) fun e he => (hes e he).2.2
  rw [hreplica]
  exact Replica.replay?_of_quiet fun e he => ⟨(hes e he).1, (hes e he).2.1⟩

/-- Nothing is told where there is nothing to tell. -/
theorem extend_silent (h : s.Tracked) (hraised : s'.raised = s.raised)
    (hreplica : s'.replica = s.replica) (horigins : s'.origins = s.origins)
    (hcolumns : s'.columns = s.columns) : s'.Tracked :=
  h.extend_quiet (hraised.trans (List.append_nil _).symm) hreplica horigins hcolumns
    fun _ he => nomatch he

theorem appendTable (ho : s.Tracked) (hs : s.Tidy) (tbl : Table) : (s.appendTable tbl).Tracked := by
  have hfresh : s.tables.contains ⟨s.lastTable + 1⟩ = false :=
    Bool.eq_false_iff.mpr fun h => Nat.not_succ_le_self _ (hs.table_fresh _ h)
  have hobj := SameObjects.raise (.childInserted .schema (.table ⟨s.lastTable + 1⟩) s.tables.size)
    { s with
      tables := s.tables.insert ⟨s.lastTable + 1⟩ { tbl with
        columns := []
        exportedKeys := []
        importedKeys := []
        inSecondaryChange := false
        magicEnabled := s.config.magicByDefault }
      lastTable := s.lastTable + 1 }
  refine ho.extend_lists (raised_raise _ _) ?_ (origins_raise _ _)
    (fun c col hcol => hobj.columns ▸ hcol) (List.forall_mem_singleton.mpr fun c h => nomatch h)
  rw [Replica.replay?_singleton]
  exact hear?_appendTable hfresh rfl hobj.tables

theorem eraseTable (ho : s.Tracked) (hs : s.Tidy) {i : Nat} (hi : s.tables.indexOf? t = some i) :
    (s.eraseTable t i).Tracked := by
  have hobj := SameObjects.raise (.childRemoved .schema (.table t) i) { s with
    tables := s.tables.erase t
    columns := (s.columnsOf t).foldl (fun cols c => cols.erase c) s.columns }
  refine ho.extend_lists (raised_raise _ _) ?_ (origins_raise _ _) (fun c col hcol => ?_)
    (List.forall_mem_singleton.mpr fun c h => nomatch h)
  · rw [Replica.replay?_singleton]
    exact hear?_eraseTable hs.tables_nodup hi hobj.tables
  · rw [show (s.eraseTable t i).columns = _ from hobj.columns, get?_foldl_erase] at hcol
    split at hcol
    · cases hcol
    · exact hcol

theorem placeColumn (ho : s.Tracked) (hs : s.Tidy) {tbl : Table}
    (htbl : s.tables.get? t = some tbl) {i : Nat} (hi : i ≤ tbl.columns.length) (col : Column) :
    (s.placeColumn t i col).Tracked := by
  have hobj := placeColumn_objects t i col s
  have hraised : (s.placeColumn t i col).raised =
      s.raised ++ [.childInserted (.table t) (.column s.nextColumn) i] := raised_raise _ _
  have horigins : (s.placeColumn t i col).origins =
      s.origins.insert s.nextColumn { col with table := some t } := origins_raise _ _
  constructor
  · rw [hraised, Replica.replay?_append, ho.lists]
    refine (Replica.replay?_singleton).trans (hear?_relist htbl rfl rfl ?_ hobj.tables)
    simp [Event.listsAfter?, TableLists.insert?, Table.lists, insertAt?_of_le hi]
  · intro c col' hcol'
    rw [get?_placeColumn] at hcol'
    rw [hraised, horigins, Roster.get?_insert]
    split at hcol' <;> rename_i hc
    · -- nothing has been told of the new column
      rw [if_pos hc]
      refine ⟨_, rfl, (Column.replay?_of_ne (fun e he hsource => ?_) _).trans hcol'⟩
      rcases List.mem_append.mp he with he | he
      · exact Bool.noConfusion (hs.nextColumn_fresh.symm.trans (hc ▸ hs.sourced e he c hsource))
      · rw [List.mem_singleton.mp he] at hsource
        cases hsource
    · rw [if_neg hc]
      obtain ⟨origin, horigin, hreplay⟩ := ho.columns c col' hcol'
      refine ⟨origin, horigin, ?_⟩
      rw [Column.replay?_append, hreplay]
      exact Column.replay?_of_ne (List.forall_mem_singleton.mpr (by simp [Event.source?])) col'

theorem dropColumn (ho : s.Tracked) {tbl : Table} (htbl : s.tables.get? t = some tbl) {i : Nat}
    (hi : tbl.columns.idxOf? c = some i) : (s.dropColumn t i c).Tracked := by
  have hobj := SameObjects.raise (.childRemoved (.table t) (.column c) i)
    { s.changeTable t fun tbl => { tbl with columns := tbl.columns.eraseIdx i } with
      columns := s.columns.erase c }
  refine ho.extend_lists (raised_raise _ _) ?_ (origins_raise _ _) (fun c' col hcol => ?_)
    (List.forall_mem_singleton.mpr fun c h => nomatch h)
  · refine (Replica.replay?_singleton).trans (hear?_relist htbl rfl rfl ?_ hobj.tables)
    simp [Event.listsAfter?, TableLists.remove?, Table.lists, removeAt?_of_idxOf? hi]
  · rw [show (s.dropColumn t i c).columns = s.columns.erase c from hobj.columns,
      Roster.get?_erase] at hcol
    split at hcol
    · cases hcol
    · exact hcol

theorem describeColumn (ho : s.Tracked) {col : Column} (hcol : s.columns.get? c = some col)
    {property : Property} {old new : PropertyValue} {f : Column → Column}
    (hf : col.update? property old new = some (f col)) :
    ((s.changeColumn c f).raise (.propertyChanged (.column c) property old new)).Tracked := by
  have hobj := SameObjects.raise (.propertyChanged (.column c) property old new) (s.changeColumn c f)
  refine ho.extend (raised_raise _ _) ?_ (origins_raise _ _) fun c' col' hcol' => ?_
  · rw [replica_congr hobj.tables]
    exact Replica.replay?_of_quiet (List.forall_mem_singleton.mpr ⟨rfl, rfl⟩)
  · rw [hobj.columns] at hcol'
    unfold changeColumn at hcol'
    rw [Roster.get?_modify] at hcol'
    split at hcol' <;> rename_i hc
    · subst hc
      rw [hcol] at hcol'
      refine ⟨col, hcol, ?_⟩
      simp only [Column.replay?, List.foldlM_cons, List.foldlM_nil, Column.hear?, if_true, hf]
      exact hcol'
    · refine ⟨col', hcol', Column.replay?_of_ne (List.forall_mem_singleton.mpr fun h => hc ?_) col'⟩
      exact (ObjectRef.column.inj (Option.some.inj h)).symm

end Tracked

/-- Effects are told as they are. -/
theorem Effect.tracked {moved : Option (RelationshipId × Option TableId)} (h : Effect moved s s')
    (hs : s.Tidy) (ho : s.Tracked) : s'.Tracked := by
  cases h with
  | signal e he =>
      rw [Event.isCompoundSignal, Option.isNone_iff_eq_none] at he
      refine ho.extend_quiet rfl rfl rfl rfl (List.forall_mem_singleton.mpr ⟨?_, ?_, ?_⟩)
      · simp [Event.isOfSchema, he]
      · cases e <;> first | rfl | cases he
      · simp [he]
  | skip h =>
      rw [h.same]
      exact ho.extend_silent rfl rfl rfl rfl
  | storeRelationship | eraseRelationship => exact ho.extend_silent rfl rfl rfl rfl
  | @describeRelationship r rel hrel f es hes =>
      have hobj := SameObjects.raiseAll es (s.changeRelationship r f)
      refine ho.extend_quiet (raised_raiseAll _ _) (replica_congr hobj.tables)
        (origins_raiseAll _ _) hobj.columns fun e he => ?_
      have hr := hes e he
      refine ⟨by simp [Event.isOfSchema, hr], ?_, by simp [hr]⟩
      refine Option.eq_none_iff_forall_ne_some.mpr fun t ht => ?_
      rcases Event.source?_of_about? ht with h | h <;> cases hr.symm.trans h
  | appendTable tbl => exact ho.appendTable hs tbl
  | eraseTable hi hmode => exact ho.eraseTable hs hi
  | @describe t f hlists hmode es hes =>
      have hobj := SameObjects.raiseAll es (s.changeTable t f)
      refine ho.extend_quiet (raised_raiseAll _ _) ?_ (origins_raiseAll _ _) hobj.columns
        fun e he => ?_
      · exact (replica_congr hobj.tables).trans (replica_changeTable t hlists s)
      · obtain ⟨-, property, old, new, rfl⟩ := hes e he
        exact ⟨rfl, rfl, by simp [Event.source?]⟩
  | @suspend t tbl htbl =>
      refine ho.extend_silent rfl ?_ rfl rfl
      exact replica_changeTable t (f := fun tbl => { tbl with inSecondaryChange := true })
        (fun _ => rfl) s
  | @resume t tbl htbl =>
      refine ho.extend_silent rfl ?_ rfl rfl
      exact replica_changeTable t (f := fun tbl => { tbl with inSecondaryChange := false })
        (fun _ => rfl) s
  | forget ht => exact ho.extend_silent rfl rfl rfl rfl
  | @relist t tbl htbl f e hsource habout hlists hmode hattributes hnodup hfresh =>
      have hobj := SameObjects.raise e (s.changeTable t f)
      refine ho.extend_lists (raised_raise _ _) ?_ (origins_raise _ _)
        (fun c col hcol => hobj.columns ▸ hcol) (List.forall_mem_singleton.mpr fun c h => ?_)
      · rw [Replica.replay?_singleton]
        exact hear?_relist htbl hsource habout hlists hobj.tables
      · cases hsource.symm.trans h
  | placeColumn htbl hi col => exact ho.placeColumn hs htbl hi col
  | dropColumn htbl hi => exact ho.dropColumn htbl hi
  | describeColumn hcol hf => exact ho.describeColumn hcol hf

end Schema

/-- Along every run, what was raised rebuilds the schema. -/
theorem Moment.tracked_run (config : Config) (moves : List Move) :
    ((start config).run moves).schema.Tracked :=
  (effects_run (fun _ _ _ hs ho h => h.tracked hs ho) (Schema.Tidy.ofConfig config)
    (Schema.Tracked.ofConfig config) moves).2

end KeyedSchema
