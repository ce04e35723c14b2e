import KeyedSchema.Proofs.Identity
import Mathlib.Logic.Relation

/-!
# Effects — changes as a client is told of them

Single changes, sorted by what a client is told of them. `Schema.Effect` has one constructor for each
sort: what a change reaches, with the events that tell of it and where they come from. Numbering a
key is a series of effects, each of which gives one column another rank, and so is moving a column.

A schema is **tidy** if no list names anything twice and every number that is in use was given out.
Effects keep it so, and with it a rank that is told as the old one of a column is the one that it
had.
-/

namespace KeyedSchema

namespace Schema

variable {moved : Option (RelationshipId × Option TableId)} {s s' s'' : Schema} {t t' : TableId}
  {c : ColumnId} {e : Event} {es : List Event}

/-! ## Events add to what is told -/

@[simp] theorem origins_raise (e : Event) (s : Schema) : (s.raise e).origins = s.origins := by
  unfold raise
  split <;> rfl

@[simp] theorem origins_raiseAll (es : List Event) (s : Schema) :
    (s.raiseAll es).origins = s.origins := by
  unfold raiseAll
  induction es generalizing s with
  | nil => rfl
  | cons e es ih => simp [ih]

/-- One event is a series of events. -/
theorem raise_eq_raiseAll (e : Event) (s : Schema) : s.raise e = s.raiseAll [e] := rfl

theorem get?_changeTable (t : TableId) (f : Table → Table) (s : Schema) (t' : TableId) :
    (s.changeTable t f).tables.get? t' =
      if t' = t then (s.tables.get? t).map f else s.tables.get? t' := by
  unfold changeTable
  rw [Roster.get?_modify]
  split
  · rename_i h
    rw [h]
  · rfl

/-! ## Tidy schemas -/

/-- Whether no list names anything twice and every number in use was given out. -/
structure Tidy (s : Schema) : Prop where
  tables_nodup : s.tables.keys.Nodup
  table_fresh : ∀ t, s.tables.contains t = true → t.val ≤ s.lastTable
  columns_nodup : ∀ t tbl, s.tables.get? t = some tbl → tbl.columns.Nodup
  listed_fresh : ∀ t tbl, s.tables.get? t = some tbl → ∀ c ∈ tbl.columns, c.val ≤ s.lastColumn
  origin_fresh : ∀ c, s.origins.contains c = true → c.val ≤ s.lastColumn
  /-- A column stays with the table that it was put into. -/
  stored : ∀ c col, s.columns.get? c = some col →
    ∃ origin, s.origins.get? c = some origin ∧ origin.table = col.table
  /-- Only columns that were put in are told of. -/
  sourced : ∀ e ∈ s.raised, ∀ c, e.source? = some (.column c) → s.origins.contains c = true

/-- Whether only columns that were put in are told of by the events. -/
def Sourced (s : Schema) (es : List Event) : Prop :=
  ∀ e ∈ es, ∀ c, e.source? = some (.column c) → s.origins.contains c = true

theorem sourced_of_source? {o : ObjectRef} (h : ∀ e ∈ es, e.source? = some o)
    (ho : ∀ c, o = .column c → s.origins.contains c = true) : s.Sourced es := by
  intro e he c hc
  exact ho c (Option.some.inj ((h e he).symm.trans hc))

/-- No column is told of by the events of the schema. -/
theorem sourced_of_schema (h : ∀ e ∈ es, e.source? = some .schema) : s.Sourced es :=
  sourced_of_source? h fun _ ho => by cases ho

/-- No column is told of by the events of a table. -/
theorem sourced_of_table (h : ∀ e ∈ es, e.source? = some (.table t)) : s.Sourced es :=
  sourced_of_source? h fun _ ho => by cases ho

namespace Tidy

theorem ofConfig (config : Config) : (ofConfig config).Tidy where
  tables_nodup := List.nodup_nil
  table_fresh _ h := absurd h Bool.false_ne_true
  columns_nodup _ _ h := nomatch h
  listed_fresh _ _ h := nomatch h
  origin_fresh _ h := absurd h Bool.false_ne_true
  stored _ _ h := nomatch h
  sourced _ he := nomatch he

/-- What is told keeps a schema tidy. -/
theorem raiseAll (hs : s.Tidy) (hes : s.Sourced es) : (s.raiseAll es).Tidy := by
  have ho := SameObjects.raiseAll es s
  constructor
  case sourced =>
    intro e he c hc
    rw [raised_raiseAll, List.mem_append] at he
    rw [origins_raiseAll]
    exact he.elim (hs.sourced e · c hc) (hes e · c hc)
  all_goals simp only [ho.tables, ho.columns, ho.lastTable, ho.lastColumn, origins_raiseAll]
  · exact hs.tables_nodup
  · exact hs.table_fresh
  · exact hs.columns_nodup
  · exact hs.listed_fresh
  · exact hs.origin_fresh
  · exact hs.stored

theorem changeTable (hs : s.Tidy) (t : TableId) {f : Table → Table}
    (hnodup : ∀ tbl, s.tables.get? t = some tbl → (f tbl).columns.Nodup)
    (hfresh : ∀ tbl, s.tables.get? t = some tbl → ∀ c ∈ (f tbl).columns, c.val ≤ s.lastColumn) :
    (s.changeTable t f).Tidy where
  tables_nodup := Roster.nodup_keys_modify hs.tables_nodup t f
  table_fresh t' ht := hs.table_fresh t' (by simpa [Schema.changeTable] using ht)
  columns_nodup := by
    intro t' tbl htbl
    rw [get?_changeTable] at htbl
    split at htbl
    · obtain ⟨tbl₀, htbl₀, rfl⟩ := Option.map_eq_some_iff.mp htbl
      exact hnodup tbl₀ htbl₀
    · exact hs.columns_nodup t' tbl htbl
  listed_fresh := by
    intro t' tbl htbl
    rw [get?_changeTable] at htbl
    split at htbl
    · obtain ⟨tbl₀, htbl₀, rfl⟩ := Option.map_eq_some_iff.mp htbl
      exact hfresh tbl₀ htbl₀
    · exact hs.listed_fresh t' tbl htbl
  origin_fresh := hs.origin_fresh
  stored := hs.stored
  sourced := hs.sourced

/-- What lists the same columns is as tidy. -/
theorem describe (hs : s.Tidy) (t : TableId) {f : Table → Table}
    (hf : ∀ tbl, (f tbl).columns = tbl.columns) : (s.changeTable t f).Tidy :=
  hs.changeTable t (fun tbl htbl => (hf tbl).symm ▸ hs.columns_nodup t tbl htbl)
    fun tbl htbl => (hf tbl).symm ▸ hs.listed_fresh t tbl htbl

theorem withColumns (hs : s.Tidy) {columns : Roster ColumnId Column}
    (h : ∀ c col, columns.get? c = some col →
      ∃ origin, s.origins.get? c = some origin ∧ origin.table = col.table) :
    { s with columns }.Tidy :=
  ⟨hs.tables_nodup, hs.table_fresh, hs.columns_nodup, hs.listed_fresh, hs.origin_fresh, h, hs.sourced⟩

theorem changeColumn (hs : s.Tidy) (c : ColumnId) {f : Column → Column} {col : Column}
    (hcol : s.columns.get? c = some col) (hf : (f col).table = col.table) :
    (s.changeColumn c f).Tidy := by
  refine hs.withColumns fun c' col' hcol' => ?_
  rw [Roster.get?_modify] at hcol'
  split at hcol'
  · rename_i h
    rw [h, hcol] at hcol'
    obtain rfl := Option.some.inj hcol'
    rw [h, hf]
    exact hs.stored c col hcol
  · exact hs.stored c' col' hcol'

theorem origins_contains (hs : s.Tidy) {col : Column} (hcol : s.columns.get? c = some col) :
    s.origins.contains c = true := by
  obtain ⟨origin, horigin, -⟩ := hs.stored c col hcol
  exact Roster.contains_of_get? horigin

theorem nextColumn_fresh (hs : s.Tidy) : s.origins.contains s.nextColumn = false := by
  rw [Bool.eq_false_iff]
  exact fun h => Nat.not_succ_le_self _ (hs.origin_fresh _ h)

theorem nextColumn_notMem (hs : s.Tidy) {tbl : Table} (htbl : s.tables.get? t = some tbl) :
    s.nextColumn ∉ tbl.columns :=
  fun h => Nat.not_succ_le_self _ (hs.listed_fresh t tbl htbl _ h)

theorem insertIdx_nodup (hs : s.Tidy) {tbl : Table} (htbl : s.tables.get? t = some tbl) {i : Nat}
    (hi : i ≤ tbl.columns.length) : (tbl.columns.insertIdx i s.nextColumn).Nodup :=
  (List.perm_insertIdx _ _ hi).nodup_iff.mpr
    (List.nodup_cons.mpr ⟨hs.nextColumn_notMem htbl, hs.columns_nodup t tbl htbl⟩)

/-- A new column keeps a schema tidy. -/
theorem placeColumn (hs : s.Tidy) {tbl : Table} (htbl : s.tables.get? t = some tbl) {i : Nat}
    (hi : i ≤ tbl.columns.length) (col : Column) : (s.placeColumn t i col).Tidy := by
  have hnodup : ∀ tbl', s.tables.get? t = some tbl' →
      (tbl'.columns.insertIdx i s.nextColumn).Nodup := by
    intro tbl' htbl'
    obtain rfl := Option.some.inj (htbl.symm.trans htbl')
    exact hs.insertIdx_nodup htbl hi
  have hfresh : ∀ tbl', s.tables.get? t = some tbl' →
      ∀ c ∈ tbl'.columns.insertIdx i s.nextColumn, c.val ≤ s.lastColumn + 1 := by
    intro tbl' htbl' c hc
    obtain rfl := Option.some.inj (htbl.symm.trans htbl')
    rcases (List.mem_insertIdx hi).mp hc with rfl | hc
    · exact Nat.le_refl _
    · exact Nat.le_succ_of_le (hs.listed_fresh t tbl htbl c hc)
  -- the number is given out first
  have hgiven : { s with lastColumn := s.lastColumn + 1 }.Tidy :=
    ⟨hs.tables_nodup, hs.table_fresh, hs.columns_nodup,
      fun t tbl htbl c hc => Nat.le_succ_of_le (hs.listed_fresh t tbl htbl c hc),
      fun c hc => Nat.le_succ_of_le (hs.origin_fresh c hc), hs.stored, hs.sourced⟩
  have hlisted := hgiven.changeTable t
    (f := fun tbl => { tbl with columns := tbl.columns.insertIdx i s.nextColumn }) hnodup hfresh
  unfold Schema.placeColumn
  rw [raise_eq_raiseAll]
  refine raiseAll ?_ (sourced_of_table (t := t) (List.forall_mem_singleton.mpr rfl))
  refine ⟨hlisted.tables_nodup, hlisted.table_fresh, hlisted.columns_nodup, hlisted.listed_fresh,
    ?_, ?_, ?_⟩
  · intro c hc
    rcases Roster.contains_of_insert hc with hc | rfl
    · exact hlisted.origin_fresh c hc
    · exact Nat.le_refl _
  · intro c col' hcol'
    rw [Roster.get?_insert] at hcol'
    rw [Roster.get?_insert]
    split at hcol' <;> rename_i h
    · rw [if_pos h]
      exact ⟨_, rfl, congrArg Column.table (Option.some.inj hcol')⟩
    · rw [if_neg h]
      exact hs.stored c col' hcol'
  · intro e he c hc
    simp [hs.sourced e he c hc]

end Tidy

/-! ## Effects -/

/-- What a single change reaches, with the events that tell of it. `moved` is the relationship that
may get another child, with that child. -/
inductive Effect (moved : Option (RelationshipId × Option TableId)) (s : Schema) : Schema → Prop
  | signal (e : Event) (he : e.isCompoundSignal = true) : Effect moved s (s.signal e)
  /-- A refused edit may have used up a number. -/
  | skip {s' : Schema} (h : Untouched s s') : Effect moved s s'
  -- relationships
  | storeRelationship (rel : Relationship) (hmoved : moved = none) :
      Effect moved s (s.storeRelationship rel)
  | eraseRelationship {r : RelationshipId} {rel : Relationship}
      (hrel : s.relationships.get? r = some rel) :
      Effect moved s { s with relationships := s.relationships.erase r }
  /-- What a relationship has, its ends and its mappings. -/
  | describeRelationship {r : RelationshipId} {rel : Relationship}
      (hrel : s.relationships.get? r = some rel) {f : Relationship → Relationship} {es : List Event}
      (hes : ∀ e ∈ es, e.source? = some (.relationship r))
      (hchild : (f rel).child = rel.child ∨ moved = some (r, (f rel).child))
      (htold : ∀ p, Recounts (rel.attribute? p) ((f rel).attribute? p)
        (es.filterMap (Event.change? (.relationship r) p))) :
      Effect moved s ((s.changeRelationship r f).raiseAll es)
  -- tables
  | appendTable (tbl : Table) : Effect moved s (s.appendTable tbl)
  | eraseTable {t : TableId} {i : Nat} (hi : s.tables.indexOf? t = some i)
      (hmode : s.isHolding t = false) : Effect moved s (s.eraseTable t i)
  /-- What a table has besides its lists and its mode. -/
  | describe (t : TableId) {f : Table → Table} (hlists : ∀ tbl, (f tbl).lists = tbl.lists)
      (hmode : ∀ tbl, (f tbl).inSecondaryChange = tbl.inSecondaryChange) {es : List Event}
      (hes : ∀ e ∈ es, s.tables.contains t = true ∧
        ∃ property old new, e = .propertyChanged (.table t) property old new)
      (htold : ∀ tbl, s.tables.get? t = some tbl → ∀ p, Recounts (tbl.attribute? p)
        ((f tbl).attribute? p) (es.filterMap (Event.change? (.table t) p))) :
      Effect moved s ((s.changeTable t f).raiseAll es)
  | suspend {t : TableId} {tbl : Table} (htbl : s.tables.get? t = some tbl)
      (hmoved : ∀ r new, moved = some (r, new) → new = some t) :
      Effect moved s (s.setSecondaryChange t true)
  | resume {t : TableId} {tbl : Table} (htbl : s.tables.get? t = some tbl) :
      Effect moved s ((s.setSecondaryChange t false).release t)
  | forget {t : TableId} (ht : s.tables.get? t = none) : Effect moved s (s.forget t)
  /-- One child of a table, among its columns or registrations. -/
  | relist {t : TableId} {tbl : Table} (htbl : s.tables.get? t = some tbl) {f : Table → Table}
      {e : Event} (hsource : e.source? = some (.table t)) (habout : e.about? = some t)
      (hlists : e.listsAfter? (some tbl.lists) = some (some (f tbl).lists))
      (hmode : (f tbl).inSecondaryChange = tbl.inSecondaryChange)
      (hattributes : (f tbl).attribute? = tbl.attribute?)
      (hnodup : (f tbl).columns.Nodup) (hfresh : ∀ c ∈ (f tbl).columns, c.val ≤ s.lastColumn) :
      Effect moved s ((s.changeTable t f).raise e)
  -- columns
  | placeColumn {t : TableId} {tbl : Table} (htbl : s.tables.get? t = some tbl) {i : Nat}
      (hi : i ≤ tbl.columns.length) (col : Column) : Effect moved s (s.placeColumn t i col)
  | dropColumn {t : TableId} {tbl : Table} {c : ColumnId} {i : Nat}
      (htbl : s.tables.get? t = some tbl) (hi : tbl.columns.idxOf? c = some i) :
      Effect moved s (s.dropColumn t i c)
  /-- One attribute of a column, its rank among them. -/
  | describeColumn {c : ColumnId} {col : Column} (hcol : s.columns.get? c = some col)
      {property : Property} {old new : PropertyValue} {f : Column → Column}
      (hf : col.update? property old new = some (f col)) :
      Effect moved s ((s.changeColumn c f).raise (.propertyChanged (.column c) property old new))

/-- A series of effects. -/
abbrev Effects (moved : Option (RelationshipId × Option TableId)) : Schema → Schema → Prop :=
  Relation.ReflTransGen (Effect moved)

theorem Effect.effects (h : Effect moved s s') : Effects moved s s' := .single h

theorem Tidy.appendTable (hs : s.Tidy) (tbl : Table) : (s.appendTable tbl).Tidy := by
  unfold Schema.appendTable
  rw [raise_eq_raiseAll]
  refine raiseAll ?_ (sourced_of_schema (List.forall_mem_singleton.mpr rfl))
  have htables : ∀ (t : TableId) joined, (s.tables.insert ⟨s.lastTable + 1⟩ joined).get? t =
      if t = ⟨s.lastTable + 1⟩ then some joined else s.tables.get? t :=
    fun t joined => Roster.get?_insert ..
  refine ⟨Roster.nodup_keys_insert hs.tables_nodup _ _, ?_, ?_, ?_, hs.origin_fresh, hs.stored,
    hs.sourced⟩
  · intro t ht
    rcases Roster.contains_of_insert ht with ht | rfl
    · exact Nat.le_succ_of_le (hs.table_fresh t ht)
    · exact Nat.le_refl _
  · intro t tbl' htbl'
    rw [htables] at htbl'
    split at htbl'
    · obtain rfl := Option.some.inj htbl'
      exact List.nodup_nil
    · exact hs.columns_nodup t tbl' htbl'
  · intro t tbl' htbl'
    rw [htables] at htbl'
    split at htbl'
    · obtain rfl := Option.some.inj htbl'
      exact fun _ hc => absurd hc List.not_mem_nil
    · exact hs.listed_fresh t tbl' htbl'

theorem Tidy.eraseTable (hs : s.Tidy) (t : TableId) (i : Nat) : (s.eraseTable t i).Tidy := by
  unfold Schema.eraseTable
  rw [raise_eq_raiseAll]
  refine raiseAll ?_ (sourced_of_schema (List.forall_mem_singleton.mpr rfl))
  have hstill : ∀ t' tbl, (s.tables.erase t).get? t' = some tbl → s.tables.get? t' = some tbl := by
    intro t' tbl h
    rw [Roster.get?_erase] at h
    split at h
    · cases h
    · exact h
  refine ⟨Roster.nodup_keys_erase hs.tables_nodup t,
    fun t' ht => hs.table_fresh t' (Roster.contains_of_erase ht),
    fun t' tbl h => hs.columns_nodup t' tbl (hstill t' tbl h),
    fun t' tbl h => hs.listed_fresh t' tbl (hstill t' tbl h), hs.origin_fresh, ?_, hs.sourced⟩
  intro c col hcol
  rw [get?_foldl_erase] at hcol
  split at hcol
  · cases hcol
  · exact hs.stored c col hcol

/-- Effects keep a schema tidy. -/
theorem Effect.tidy (h : Effect moved s s') (hs : s.Tidy) : s'.Tidy := by
  cases h with
  | signal e he =>
      refine ⟨hs.tables_nodup, hs.table_fresh, hs.columns_nodup, hs.listed_fresh, hs.origin_fresh,
        hs.stored, fun e' he' c hc => ?_⟩
      rcases List.mem_append.mp he' with he' | he'
      · exact hs.sourced e' he' c hc
      · -- a signal has no source
        rw [List.mem_singleton.mp he'] at hc
        rw [Event.isCompoundSignal, hc] at he
        cases he
  | skip h =>
      obtain ⟨heq, htable, hcolumn, -⟩ := h
      rw [heq]
      exact ⟨hs.tables_nodup, fun t ht => Nat.le_trans (hs.table_fresh t ht) htable,
        hs.columns_nodup,
        fun t tbl htbl c hc => Nat.le_trans (hs.listed_fresh t tbl htbl c hc) hcolumn,
        fun c hc => Nat.le_trans (hs.origin_fresh c hc) hcolumn, hs.stored, hs.sourced⟩
  | storeRelationship | eraseRelationship =>
      exact ⟨hs.tables_nodup, hs.table_fresh, hs.columns_nodup, hs.listed_fresh, hs.origin_fresh,
        hs.stored, hs.sourced⟩
  | @describeRelationship r rel hrel f es hes =>
      have hrelated : (s.changeRelationship r f).Tidy := ⟨hs.tables_nodup, hs.table_fresh,
        hs.columns_nodup, hs.listed_fresh, hs.origin_fresh, hs.stored, hs.sourced⟩
      exact hrelated.raiseAll (sourced_of_source? hes fun _ ho => nomatch ho)
  | appendTable tbl => exact hs.appendTable tbl
  | eraseTable hi hmode => exact hs.eraseTable _ _
  | describe t hlists hmode hes =>
      refine .raiseAll (hs.describe t fun tbl => congrArg TableLists.columns (hlists tbl))
        (sourced_of_table (t := t) fun e he => ?_)
      obtain ⟨-, property, old, new, rfl⟩ := hes e he
      rfl
  | suspend htbl => exact hs.describe _ fun _ => rfl
  | @resume t tbl htbl =>
      have hleft : (s.setSecondaryChange t false).Tidy := hs.describe t fun _ => rfl
      exact ⟨hleft.tables_nodup, hleft.table_fresh, hleft.columns_nodup, hleft.listed_fresh,
        hleft.origin_fresh, hleft.stored, hleft.sourced⟩
  | forget ht =>
      exact ⟨hs.tables_nodup, hs.table_fresh, hs.columns_nodup, hs.listed_fresh, hs.origin_fresh,
        hs.stored, hs.sourced⟩
  | relist htbl hsource habout hlists hmode hattributes hnodup hfresh =>
      rw [raise_eq_raiseAll]
      refine .raiseAll (hs.changeTable _ (fun tbl' htbl' => ?_) fun tbl' htbl' => ?_)
        (sourced_of_table (List.forall_mem_singleton.mpr hsource))
      · obtain rfl := Option.some.inj (htbl.symm.trans htbl')
        exact hnodup
      · obtain rfl := Option.some.inj (htbl.symm.trans htbl')
        exact hfresh
  | placeColumn htbl hi col => exact hs.placeColumn htbl hi col
  | dropColumn htbl hi =>
      unfold Schema.dropColumn
      rw [raise_eq_raiseAll]
      refine .raiseAll ?_ (sourced_of_table (List.forall_mem_singleton.mpr rfl))
      refine Tidy.withColumns (hs.changeTable _ (fun tbl' htbl' => ?_) fun tbl' htbl' c hc => ?_) ?_
      · exact (hs.columns_nodup _ tbl' htbl').sublist (List.eraseIdx_sublist _ _)
      · exact hs.listed_fresh _ tbl' htbl' c ((List.eraseIdx_sublist _ _).subset hc)
      · intro c' col' hcol'
        rw [Roster.get?_erase] at hcol'
        split at hcol'
        · cases hcol'
        · exact hs.stored c' col' hcol'
  | describeColumn hcol hf =>
      rw [raise_eq_raiseAll]
      refine .raiseAll (hs.changeColumn _ hcol (Column.table_of_update? hf))
        (sourced_of_source? (List.forall_mem_singleton.mpr rfl) fun c' hc' => ?_)
      obtain rfl := ObjectRef.column.inj hc'
      exact hs.origins_contains hcol

theorem Effects.tidy (h : Effects moved s s') (hs : s.Tidy) : s'.Tidy := by
  induction h with
  | refl => exact hs
  | tail _ hlast ih => exact hlast.tidy ih

/-- What each effect on a tidy schema keeps, a series of effects keeps. -/
theorem Effects.preserves {P : Schema → Prop} (h : Effects moved s s')
    (hstep : ∀ s s', s.Tidy → P s → Effect moved s s' → P s') (hs : s.Tidy) (hp : P s) : P s' := by
  induction h with
  | refl => exact hp
  | tail hinit hlast ih => exact hstep _ _ (Effects.tidy hinit hs) ih hlast

/-! ## Single changes as effects -/

/-- Changing what a relationship has besides its attributes. -/
theorem effect_remap {r : RelationshipId} {rel : Relationship}
    (hrel : s.relationships.get? r = some rel) {f : Relationship → Relationship}
    (hchild : (f rel).child = rel.child) (hf : (f rel).attribute? = rel.attribute?)
    (hes : ∀ e ∈ es, e.source? = some (.relationship r) ∧
      ∀ p, e.change? (.relationship r) p = none) :
    Effect moved s ((s.changeRelationship r f).raiseAll es) := by
  refine .describeRelationship hrel (fun e he => (hes e he).1) (.inl hchild) fun p => ?_
  rw [List.filterMap_eq_nil_iff.mpr fun e he => (hes e he).2 p, hf]
  exact rfl

/-- Changing one attribute of a relationship. -/
theorem effect_describeRelationship {r : RelationshipId} {rel : Relationship}
    (hrel : s.relationships.get? r = some rel) (property : Property)
    (value : Relationship → PropertyValue) {f : Relationship → Relationship}
    (hvalue : ∀ rel, rel.attribute? property = some (value rel))
    (hothers : ∀ rel p, p ≠ property → (f rel).attribute? p = rel.attribute? p)
    (hchild : (f rel).child = rel.child ∨ moved = some (r, (f rel).child)) :
    Effect moved s ((s.changeRelationship r f).raise
      (.propertyChanged (.relationship r) property (value rel) (value (f rel)))) := by
  rw [raise_eq_raiseAll]
  refine .describeRelationship hrel (List.forall_mem_singleton.mpr rfl) hchild fun p => ?_
  by_cases hp : p = property
  · subst hp
    simp [Event.change?, Recounts, hvalue]
  · simp [Event.change?, Recounts, hothers rel p hp, Ne.symm hp]

theorem effect_changeRank {col : Column} (hcol : s.columns.get? c = some col) (new : Option Nat) :
    Effect moved s (s.changeRank c col.rank new) :=
  .describeColumn hcol (f := fun col => { col with rank := new }) (col.update?_rank new)

/-- Changing what a table has besides its lists, its mode and its attributes. -/
theorem effect_changeTable (t : TableId) {f : Table → Table}
    (hlists : ∀ tbl, (f tbl).lists = tbl.lists)
    (hmode : ∀ tbl, (f tbl).inSecondaryChange = tbl.inSecondaryChange)
    (hf : ∀ tbl, (f tbl).attribute? = tbl.attribute?) (s : Schema) :
    Effect moved s (s.changeTable t f) :=
  @Effect.describe moved s t f hlists hmode [] (fun _ he => nomatch he)
    fun tbl _ p => congrFun (hf tbl) p

/-- Columns that are listed once with the ranks that they have are renumbered one by one. -/
theorem effects_renumber (n : Nat) (ranks : List (ColumnId × Nat)) (s : Schema)
    (hnodup : (ranks.map Prod.fst).Nodup) (hranks : ∀ e ∈ ranks, s.rank? e.1 = some e.2) :
    Effects moved s (renumber n ranks s) := by
  -- by induction on the columns: each event tells the rank that its column has by then
  induction ranks generalizing n s with
  | nil => exact .refl
  | cons entry ranks ih =>
      obtain ⟨c, rank⟩ := entry
      obtain ⟨hc, hnodup⟩ := List.nodup_cons.mp hnodup
      rw [List.forall_mem_cons] at hranks
      obtain ⟨hrank, hranks⟩ := hranks
      obtain ⟨col, hcol, hcolrank⟩ := Option.bind_eq_some_iff.mp hrank
      unfold renumber
      split
      · exact ih _ _ hnodup hranks
      · rw [← hcolrank]
        refine (effect_changeRank hcol (some n)).effects.trans (ih _ _ hnodup fun e he => ?_)
        -- the columns that are still to come have the ranks that they had
        rw [rank?_changeRank c _ _ s (Roster.contains_of_get? hcol), if_neg]
        · exact hranks e he
        · exact fun h => hc (List.mem_map.mpr ⟨e, he, h⟩)

/-- The exported keys of a table with one more relationship. -/
theorem effect_registerExported (hs : s.Tidy) {tbl : Table} (htbl : s.tables.get? t = some tbl)
    (r : RelationshipId) : Effect moved s (s.registerExported t r) := by
  refine .relist htbl (e := .childInserted (.table t) (.exportedKey r) _) rfl rfl ?_ rfl rfl
    (hs.columns_nodup t tbl htbl) (hs.listed_fresh t tbl htbl)
  simp [Event.listsAfter?, TableLists.insert?, Table.lists, exportsOf, htbl, insertAt?_length]

theorem effect_registerImported (hs : s.Tidy) {tbl : Table} (htbl : s.tables.get? t = some tbl)
    (r : RelationshipId) : Effect moved s (s.registerImported t r) := by
  refine .relist htbl (e := .childInserted (.table t) (.importedKey r) _) rfl rfl ?_ rfl rfl
    (hs.columns_nodup t tbl htbl) (hs.listed_fresh t tbl htbl)
  simp [Event.listsAfter?, TableLists.insert?, Table.lists, importsOf, htbl, insertAt?_length]

theorem effect_unmapWhere (p : Mapping → Bool) (r : RelationshipId) (s : Schema) :
    Effects moved s (s.unmapWhere p r) := by
  unfold unmapWhere
  split
  · exact .refl
  · rename_i rel hrel
    refine (effect_remap hrel rfl rfl fun e he => ?_).effects
    obtain ⟨entry, -, rfl⟩ := List.mem_map.mp he
    exact ⟨rfl, fun _ => rfl⟩

theorem effect_clearMappings (r : RelationshipId) (s : Schema) :
    Effects moved s (s.clearMappings r) := by
  unfold clearMappings
  split
  · exact .refl
  · rename_i rel hrel
    refine (effect_remap hrel rfl rfl fun e he => ?_).effects
    obtain ⟨entry, -, rfl⟩ := List.mem_map.mp he
    exact ⟨rfl, fun _ => rfl⟩

theorem effect_syncMappingOrder (r : RelationshipId) (s : Schema) :
    Effects moved s (s.syncMappingOrder r) := by
  unfold syncMappingOrder
  split
  · exact .refl
  · rename_i rel hrel
    dsimp only
    split
    · exact .refl
    · exact (effect_remap hrel rfl rfl
        (List.forall_mem_singleton.mpr ⟨rfl, fun _ => rfl⟩)).effects

/-- Every single change of a tidy schema is a series of effects. -/
theorem Change.effects (h : Change moved s s') (hs : s.Tidy) : Effects moved s s' := by
  cases h
  case appendTable tbl => exact (Effect.appendTable tbl).effects
  case eraseTable t i hi hmode => exact (Effect.eraseTable hi hmode).effects
  case describeTable t tbl htbl property value f hvalue hothers hlists hmode =>
    refine Effect.effects ?_
    rw [raise_eq_raiseAll]
    refine .describe t hlists hmode
      (List.forall_mem_singleton.mpr ⟨Roster.contains_of_get? htbl, _, _, _, rfl⟩) fun tbl' htbl' p => ?_
    obtain rfl := Option.some.inj (htbl.symm.trans htbl')
    by_cases hp : p = property
    · subst hp
      simp [Event.change?, Recounts, hvalue]
    · simp [Event.change?, Recounts, hothers tbl p hp, Ne.symm hp]
  case setMagic t on =>
    refine Effect.effects (effect_changeTable t ?_ ?_ ?_ s)
    all_goals exact fun _ => rfl
  case suspend t tbl htbl hmode hmoved => exact (Effect.suspend htbl hmoved).effects
  case resume t tbl htbl => exact (Effect.resume htbl).effects
  case forget t ht => exact (Effect.forget ht).effects
  case placeColumn t tbl htbl i hi col => exact (Effect.placeColumn htbl hi col).effects
  case dropColumn t tbl c i hc htbl hi => exact (Effect.dropColumn htbl hi).effects
  case describeColumn c col hcol property value f hf => exact (Effect.describeColumn hcol hf).effects
  case changeRank c col hcol new => exact (effect_changeRank hcol new).effects
  -- the order of a key lists each of its columns once, with its rank
  case renumber t placed =>
    refine effects_renumber 0 _ s ?_ fun e he => (mem_keyOrder.mp he).2
    rw [((keyOrder_perm s t placed).map Prod.fst).nodup_iff, keyRanks_fst]
    refine List.Nodup.filter _ ?_
    unfold columnsOf
    cases htbl : s.tables.get? t with
    | none => exact List.nodup_nil
    | some tbl => exact hs.columns_nodup t tbl htbl
  case eraseRelationship r rel hrel =>
    exact (Effect.eraseRelationship hrel).effects
  case registerExported t tbl htbl r => exact (effect_registerExported hs htbl r).effects
  case registerImported t tbl htbl r => exact (effect_registerImported hs htbl r).effects
  case deregisterExported t r i hi =>
    obtain ⟨tbl, htbl, -⟩ := mem_exportsOf.mp (mem_of_idxOf? hi)
    refine (Effect.relist htbl rfl rfl ?_ rfl rfl (hs.columns_nodup t tbl htbl)
      (hs.listed_fresh t tbl htbl)).effects
    have hi : tbl.exportedKeys.idxOf? r = some i := by simpa [exportsOf, htbl] using hi
    simp [Event.listsAfter?, TableLists.remove?, Table.lists, removeAt?_of_idxOf? hi]
  case deregisterImported t r i hi =>
    obtain ⟨tbl, htbl, -⟩ := mem_importsOf.mp (mem_of_idxOf? hi)
    refine (Effect.relist htbl rfl rfl ?_ rfl rfl (hs.columns_nodup t tbl htbl)
      (hs.listed_fresh t tbl htbl)).effects
    have hi : tbl.importedKeys.idxOf? r = some i := by simpa [importsOf, htbl] using hi
    simp [Event.listsAfter?, TableLists.remove?, Table.lists, removeAt?_of_idxOf? hi]
  case unmapWhere p r => exact effect_unmapWhere p r s
  case clearMappings r => exact effect_clearMappings r s
  case syncMappingOrder r => exact effect_syncMappingOrder r s
  case describeRelationship r rel hrel property value f hvalue hothers hchild =>
    exact (effect_describeRelationship hrel _ _ hvalue hothers (.inl (hchild rel))).effects
  case changeParent r rel hrel new =>
    refine (effect_describeRelationship hrel .pkTable (fun rel => .ofTable? rel.parent)
      (fun _ => rfl) (fun rel p hp => ?_) (.inl rfl)).effects
    cases p <;> first | rfl | exact absurd rfl hp
  case changeChild r rel hrel new hmoved =>
    refine (effect_describeRelationship hrel .fkTable (fun rel => .ofTable? rel.child)
      (fun _ => rfl) (fun rel p hp => ?_) (.inr hmoved)).effects
    cases p <;> first | rfl | exact absurd rfl hp
  case appendMapping r rel hrel m =>
    exact (effect_remap hrel rfl rfl (List.forall_mem_singleton.mpr ⟨rfl, fun _ => rfl⟩)).effects
  case removeMappingAt r rel hrel m i =>
    exact (effect_remap hrel rfl rfl (List.forall_mem_singleton.mpr ⟨rfl, fun _ => rfl⟩)).effects

theorem Changes.effects (h : Changes moved s s') (hs : s.Tidy) : Effects moved s s' := by
  induction h with
  | refl => exact .refl
  | tail _ hlast ih => exact (ih hs).trans (hlast.effects ((ih hs).tidy hs))
  -- the body of a compound edit starts after its first signal
  | compound _ description _ ih ihbody =>
      have hopen := (ih hs).tail (Effect.signal (.compoundEditStarted description) rfl)
      have hbody := ihbody (Effects.tidy hopen hs)
      exact (hopen.trans hbody).tail (Effect.signal .compoundEditEnded rfl)

/-- The schema with a column at another place of its table. A move is told as a removal and an
insertion. -/
def relocated (t : TableId) (c : ColumnId) (i index : Nat) (s : Schema) : Schema :=
  (((s.changeTable t fun tbl => { tbl with columns := tbl.columns.eraseIdx i }).raise
      (.childRemoved (.table t) (.column c) i)).changeTable t fun tbl =>
    { tbl with columns := tbl.columns.insertIdx index c }).raise
      (.childInserted (.table t) (.column c) index)

/-- A column that moves within its table is taken out of it and put in again. -/
theorem effects_relocated (hs : s.Tidy) {tbl : Table} {i index : Nat}
    (htbl : s.tables.get? t = some tbl) (hi : tbl.columns.idxOf? c = some i)
    (hindex : index < tbl.columns.length) : Effects moved s (s.relocated t c i index) := by
  have hnodup := hs.columns_nodup t tbl htbl
  have hfresh := hs.listed_fresh t tbl htbl
  have hc : c ∈ tbl.columns := mem_of_idxOf? hi
  have hgone : c ∉ tbl.columns.eraseIdx i := by
    have herase : tbl.columns.erase c = tbl.columns.eraseIdx i := by rw [List.erase_eq_eraseIdx, hi]
    exact herase ▸ hnodup.not_mem_erase
  have hsub := List.eraseIdx_sublist tbl.columns i
  have hout : Effect moved s ((s.changeTable t fun tbl =>
      { tbl with columns := tbl.columns.eraseIdx i }).raise (.childRemoved (.table t) (.column c) i)) := by
    refine .relist htbl rfl rfl ?_ rfl rfl (hnodup.sublist hsub) fun c hc => hfresh c (hsub.subset hc)
    simp [Event.listsAfter?, TableLists.remove?, Table.lists, removeAt?_of_idxOf? hi]
  refine hout.effects.tail ?_
  -- the new place is within the list that is one shorter now
  have hle : index ≤ (tbl.columns.eraseIdx i).length := by
    rw [List.length_eraseIdx]
    split <;> omega
  have htbl₁ : (s.changeTable t fun tbl =>
      { tbl with columns := tbl.columns.eraseIdx i }).tables.get? t =
        some { tbl with columns := tbl.columns.eraseIdx i } := by
    rw [get?_changeTable, if_pos rfl, htbl]
    rfl
  refine .relist ((congrArg (Roster.get? · t) (SameObjects.raise _ _).tables).trans htbl₁) rfl rfl ?_
    rfl rfl ?_ ?_
  · simp [Event.listsAfter?, TableLists.insert?, Table.lists, insertAt?_of_le hle]
  · exact (List.perm_insertIdx _ _ hle).nodup_iff.mpr (List.nodup_cons.mpr ⟨hgone, hnodup.sublist hsub⟩)
  · intro c' hc'
    rw [(SameObjects.raise _ _).lastColumn]
    rcases (List.mem_insertIdx hle).mp hc' with rfl | hc'
    · exact hfresh _ hc
    · exact hfresh _ (hsub.subset hc')

end Schema

/-! ## Moves as effects -/

namespace Edit

open Schema

variable {moved : Option (RelationshipId × Option TableId)} {s : Schema}

/-- A move within a table puts the column at its new place; in the key of a table whose cascades are
enabled, that is followed by normalizing the key. -/
theorem ends_moveColumn {Q : Schema → Prop} {c : ColumnId} {index : Nat} (hrefused : Q s)
    (hmoved : ∀ t tbl i, s.owner? c = some t → s.tables.get? t = some tbl → index < tbl.columns.length →
      tbl.columns.idxOf? c = some i → Q (s.relocated t c i index) ∧
        (normalizeKey t none).Ends (fun _ => Q) (fun _ => Q) (s.relocated t c i index)) :
    (moveColumn c index).Ends (fun _ => Q) (fun _ => Q) s := by
  unfold moveColumn
  simp only [ends_bind, ends_ownerOf, ends_table]
  refine ⟨fun t ht => ⟨fun tbl htbl => ?_, fun _ => hrefused⟩, fun _ => hrefused⟩
  split
  · exact hrefused
  · rename_i hindex
    simp only [ends_bind, ends_require, ends_change, ends_raise]
    refine ⟨fun i hi => ?_, fun _ => hrefused⟩
    obtain ⟨hplaced, hnormalized⟩ := hmoved t tbl i ht htbl (Nat.lt_of_not_le hindex) hi
    -- from here on only the schema with the moved column matters
    unfold relocated at hplaced hnormalized
    generalize Schema.raise _ _ = s₁ at hplaced hnormalized ⊢
    simp only [ends_column]
    refine ⟨fun col hcol => ?_, fun _ => hplaced⟩
    split
    · simp only [ends_bind, ends_table]
      refine ⟨fun tbl₁ htbl₁ => ?_, fun _ => hplaced⟩
      split
      · exact hnormalized
      · exact hplaced
    · exact hplaced

theorem moveColumn_effects (hs : s.Tidy) (c : ColumnId) (index : Nat) :
    (moveColumn c index).Ends (fun _ => Effects moved s) (fun _ => Effects moved s) s := by
  refine ends_moveColumn (Q := Effects moved s) .refl fun t tbl i _ htbl hindex hi => ?_
  have hmove : Effects moved s (s.relocated t c i index) := effects_relocated hs htbl hi hindex
  have hnormalized : ∀ s', Changes moved (s.relocated t c i index) s' → Effects moved s s' :=
    fun s' h => hmove.trans (h.effects (hmove.tidy hs))
  exact ⟨hmove, (passes_normalizeKey t none _).mono (fun _ s' => hnormalized s') fun _ s' => hnormalized s'⟩

end Edit

namespace Moment

open Schema

variable {m : Moment}

/-- Every move on a tidy schema is a series of effects. -/
theorem effects_after (hs : m.schema.Tidy) (move : Move) :
    Effects move.moved? m.schema (m.after move).schema := by
  -- these two are no changes: one relists a column twice, the other may only use up a number
  by_cases hmove : ∃ c index, move = .edit (.moveColumn c index)
  · obtain ⟨c, index, rfl⟩ := hmove
    exact Op.perform_of_ends (P := Effects none m.schema) rfl (Edit.moveColumn_effects hs c index)
  by_cases hcreate : ∃ rel, move = .edit (.createRelationship rel)
  · obtain ⟨rel, rfl⟩ := hcreate
    change Effects none m.schema ((Op.createRelationship rel).perform m.schema).2
    rcases Op.perform_createRelationship rel m.schema with h | h
    · rw [h]
      exact (Effect.storeRelationship _ rfl).effects
    · exact (Effect.skip h).effects
  · rcases changes_after m move (fun c index h => hmove ⟨c, index, h⟩)
      fun rel h => hcreate ⟨rel, h⟩ with h | ⟨e, he, h⟩
    · exact h.effects hs
    · exact h ▸ (Effect.signal e he).effects

/-- What every effect on a tidy schema keeps, every run keeps. -/
theorem effects_run {P : Schema → Prop}
    (hstep : ∀ moved s s', s.Tidy → P s → Effect moved s s' → P s') (hs : m.schema.Tidy)
    (hp : P m.schema) (moves : List Move) : (m.run moves).schema.Tidy ∧ P (m.run moves).schema := by
  induction moves generalizing m with
  | nil => exact ⟨hs, hp⟩
  | cons move moves ih =>
      have h := effects_after hs move
      exact ih (Effects.tidy h hs) (Effects.preserves h (hstep move.moved?) hs hp)

/-- Every run leads to a tidy schema. -/
theorem tidy_run (config : Config) (moves : List Move) :
    ((start config).run moves).schema.Tidy :=
  (effects_run (P := fun _ => True) (fun _ _ _ _ _ _ => trivial) (Schema.Tidy.ofConfig config)
    trivial moves).1

end Moment

end KeyedSchema
