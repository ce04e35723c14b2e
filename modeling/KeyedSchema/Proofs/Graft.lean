import KeyedSchema.Proofs.Integrity
import Mathlib.Data.List.Perm.Basic

/-!
# Graft — one column or one mapping joins

`placeColumn` puts a new column into a table, `appendMapping` a new mapping into a relationship. Of
everything else nothing changes. A sound schema stays sound if the place is within the table, and
if the mapping joins columns of the two ends and its parent column has no mapping yet.
-/

namespace KeyedSchema

namespace Schema

variable {s s' : Schema} {t t' p ch : TableId} {c : ColumnId} {r r' : RelationshipId} {i : Nat}
  {col : Column} {m : Mapping}

/-! ## A new column -/

theorem placeColumn_objects (t : TableId) (i : Nat) (col : Column) (s : Schema) :
    SameObjects { s.changeTable t fun tbl =>
        { tbl with columns := tbl.columns.insertIdx i s.nextColumn } with
      columns := s.columns.insert s.nextColumn { col with table := some t }
      origins := s.origins.insert s.nextColumn { col with table := some t }
      lastColumn := s.lastColumn + 1 } (s.placeColumn t i col) := SameObjects.raise _ _

theorem sameFrame_placeColumn (t : TableId) (i : Nat) (col : Column) (s : Schema) :
    SameFrame s (s.placeColumn t i col) := by
  have h := placeColumn_objects t i col s
  refine ⟨h.config, ?_, by rw [h.relationships]; rfl, h.lastTable, h.lastRelationship⟩
  rw [h.tables]
  exact Roster.map_modify _ _ _ _ fun _ => rfl

theorem get?_placeColumn (t : TableId) (i : Nat) (col : Column) (s : Schema) (c : ColumnId) :
    (s.placeColumn t i col).columns.get? c =
      if c = s.nextColumn then some { col with table := some t } else s.columns.get? c := by
  rw [(placeColumn_objects t i col s).columns, Roster.get?_insert]

theorem contains_placeColumn (t : TableId) (i : Nat) (col : Column) (s : Schema) (c : ColumnId) :
    (s.placeColumn t i col).columns.contains c =
      (decide (c = s.nextColumn) || s.columns.contains c) := by
  rw [(placeColumn_objects t i col s).columns, Roster.contains_insert]

theorem owner?_placeColumn (t : TableId) (i : Nat) (col : Column) (s : Schema) (c : ColumnId) :
    (s.placeColumn t i col).owner? c = if c = s.nextColumn then some t else s.owner? c := by
  unfold owner?
  rw [get?_placeColumn]
  split <;> rfl

theorem rank?_placeColumn (t : TableId) (i : Nat) (col : Column) (s : Schema) (c : ColumnId) :
    (s.placeColumn t i col).rank? c = if c = s.nextColumn then col.rank else s.rank? c := by
  unfold rank?
  rw [get?_placeColumn]
  split <;> rfl

theorem mappingsOf_placeColumn (t : TableId) (i : Nat) (col : Column) (s : Schema)
    (r : RelationshipId) : (s.placeColumn t i col).mappingsOf r = s.mappingsOf r := by
  unfold mappingsOf
  rw [(placeColumn_objects t i col s).relationships]
  rfl

theorem columnsOf_placeColumn (ht : s.tables.contains t = true) (i : Nat) (col : Column)
    (t' : TableId) : (s.placeColumn t i col).columnsOf t' =
      if t' = t then (s.columnsOf t).insertIdx i s.nextColumn else s.columnsOf t' := by
  obtain ⟨tbl, htbl⟩ := (Roster.contains_iff _ _).mp ht
  unfold columnsOf
  rw [(placeColumn_objects t i col s).tables]
  by_cases h : t' = t
  · simp [changeTable, h, htbl]
  · simp [changeTable, h]

theorem mem_columnsOf_placeColumn (ht : s.tables.contains t = true)
    (hi : i ≤ (s.columnsOf t).length) :
    c ∈ (s.placeColumn t i col).columnsOf t' ↔
      (c = s.nextColumn ∧ t' = t) ∨ c ∈ s.columnsOf t' := by
  rw [columnsOf_placeColumn ht]
  by_cases h : t' = t
  · subst h
    simp [List.mem_insertIdx hi]
  · simp [h]

/-- A new key column goes to a place within its table. -/
theorem keyInsertPosition_le (s : Schema) (t : TableId) :
    s.keyInsertPosition t ≤ (s.columnsOf t).length := by
  have hall : ∀ e ∈ (s.columnsOf t).zipIdx.filter fun e => s.isKey e.1,
      e.2 < (s.columnsOf t).length := by
    intro e he
    exact List.snd_lt_of_mem_zipIdx (List.mem_filter.mp he).1
  have hfold : ∀ (es : List (ColumnId × Nat)) (n : Nat), n ≤ (s.columnsOf t).length →
      (∀ e ∈ es, e.2 < (s.columnsOf t).length) →
      es.foldl (fun _ e => e.2 + 1) n ≤ (s.columnsOf t).length := by
    intro es
    induction es with
    | nil => intro n hn _; exact hn
    | cons e es ih =>
        intro n _ hes
        exact ih _ (hes e (List.mem_cons_self ..)) fun e' he' => hes e' (List.mem_cons_of_mem _ he')
  exact hfold _ 0 (Nat.zero_le _) hall

namespace Sound

theorem nextColumn_fresh (hs : s.Sound) : s.columns.contains s.nextColumn = false := by
  rw [Bool.eq_false_iff]
  intro h
  have := hs.column_fresh _ h
  simp only [nextColumn] at this
  omega

theorem ne_nextColumn (hs : s.Sound) (hc : s.columns.contains c = true) : c ≠ s.nextColumn := by
  rintro rfl
  rw [hs.nextColumn_fresh] at hc
  exact Bool.false_ne_true hc

theorem nextColumn_notMem (hs : s.Sound) (t : TableId) : s.nextColumn ∉ s.columnsOf t := by
  intro h
  exact hs.ne_nextColumn (contains_of_owner? ((hs.listed t _).mp h)) rfl

theorem placeColumn (hs : s.Sound) (ht : s.tables.contains t = true)
    (hi : i ≤ (s.columnsOf t).length) (col : Column) : (s.placeColumn t i col).Sound := by
  have ho := placeColumn_objects t i col s
  refine hs.of_sameFrame (sameFrame_placeColumn t i col s) ?_ (fun t' => ?_) (fun t' c => ?_)
    (fun c hc => ?_) (fun r m hm => ?_) (fun r => ?_) fun c hc => ?_
  · rw [ho.columns]
    exact Roster.nodup_keys_insert hs.columns_nodup _ _
  · rw [columnsOf_placeColumn ht]
    split
    · rw [(List.perm_insertIdx _ _ hi).nodup_iff]
      exact List.nodup_cons.mpr ⟨hs.nextColumn_notMem t, hs.columnsOf_nodup t⟩
    · exact hs.columnsOf_nodup t'
  · rw [mem_columnsOf_placeColumn ht hi, owner?_placeColumn, hs.listed]
    by_cases hc : c = s.nextColumn
    · have hno : s.owner? c ≠ some t' := fun h => hs.ne_nextColumn (contains_of_owner? h) hc
      simp [hc ▸ hno, hc, eq_comm]
    · simp [hc]
  · rw [owner?_placeColumn]
    split
    · exact ⟨t, rfl⟩
    · rename_i hne
      rw [contains_placeColumn] at hc
      exact hs.owned c (by simpa [hne] using hc)
  -- the new column is in no mapping yet
  · rw [mappingsOf_placeColumn] at hm
    have hpk := hs.ne_nextColumn (hs.pk_stored hm)
    have hfk := hs.ne_nextColumn (hs.fk_stored hm)
    simp only [owner?_placeColumn, hpk, hfk, if_false]
    exact hs.mapped r m hm
  · rw [mappingsOf_placeColumn]
    exact hs.pks_nodup r
  · rw [ho.lastColumn]
    rw [contains_placeColumn, Bool.or_eq_true, decide_eq_true_eq] at hc
    rcases hc with rfl | hc
    · exact Nat.le_refl _
    · exact Nat.le_succ_of_le (hs.column_fresh c hc)

end Sound

/-! ## A new mapping -/

theorem appendMapping_objects (r : RelationshipId) (m : Mapping) (s : Schema) :
    SameObjects (s.changeRelationship r fun rel => { rel with mappings := rel.mappings ++ [m] })
      (s.appendMapping r m) := SameObjects.raise _ _

theorem sameFrame_appendMapping (r : RelationshipId) (m : Mapping) (s : Schema) :
    SameFrame s (s.appendMapping r m) := by
  have h := appendMapping_objects r m s
  refine ⟨h.config, by rw [h.tables]; rfl, ?_, h.lastTable, h.lastRelationship⟩
  rw [h.relationships]
  exact Roster.map_modify _ _ _ _ fun _ => rfl

theorem columns_appendMapping (r : RelationshipId) (m : Mapping) (s : Schema) :
    (s.appendMapping r m).columns = s.columns := (appendMapping_objects r m s).columns

theorem owner?_appendMapping (r : RelationshipId) (m : Mapping) (s : Schema) (c : ColumnId) :
    (s.appendMapping r m).owner? c = s.owner? c := by
  unfold owner?
  rw [columns_appendMapping]

theorem rank?_appendMapping (r : RelationshipId) (m : Mapping) (s : Schema) (c : ColumnId) :
    (s.appendMapping r m).rank? c = s.rank? c := by
  unfold rank?
  rw [columns_appendMapping]

theorem columnsOf_appendMapping (r : RelationshipId) (m : Mapping) (s : Schema) (t : TableId) :
    (s.appendMapping r m).columnsOf t = s.columnsOf t := by
  unfold columnsOf
  rw [(appendMapping_objects r m s).tables]
  rfl

theorem mappingsOf_appendMapping (hr : s.relationships.contains r = true) (m : Mapping)
    (r' : RelationshipId) : (s.appendMapping r m).mappingsOf r' =
      if r' = r then s.mappingsOf r ++ [m] else s.mappingsOf r' := by
  obtain ⟨rel, hrel⟩ := (Roster.contains_iff _ _).mp hr
  unfold mappingsOf
  rw [(appendMapping_objects r m s).relationships]
  by_cases h : r' = r
  · simp [changeRelationship, h, hrel]
  · simp [changeRelationship, h]

theorem Sound.appendMapping (hs : s.Sound) (hp : s.parent? r = some p) (hch : s.child? r = some ch)
    (hpk : s.owner? m.pk = some p) (hfk : s.owner? m.fk = some ch)
    (hnew : m.pk ∉ (s.mappingsOf r).map Mapping.pk) : (s.appendMapping r m).Sound := by
  have hr := contains_of_parent? hp
  have hcols := columns_appendMapping r m s
  refine hs.of_sameFrame (sameFrame_appendMapping r m s) (hcols ▸ hs.columns_nodup)
    (fun t => columnsOf_appendMapping r m s t ▸ hs.columnsOf_nodup t) (fun t c => ?_) (fun c hc => ?_)
    (fun r' m' hm' => ?_) (fun r' => ?_) fun c hc => ?_
  · rw [columnsOf_appendMapping, owner?_appendMapping]
    exact hs.listed t c
  · rw [owner?_appendMapping]
    exact hs.owned c (hcols ▸ hc)
  · simp only [owner?_appendMapping]
    rw [mappingsOf_appendMapping hr] at hm'
    split at hm'
    · rename_i heq
      subst heq
      rcases List.mem_append.mp hm' with hm' | hm'
      · exact hs.mapped r' m' hm'
      · obtain rfl := List.mem_singleton.mp hm'
        exact ⟨p, ch, hp, hch, hpk, hfk⟩
    · exact hs.mapped r' m' hm'
  · rw [mappingsOf_appendMapping hr]
    split
    · rw [List.map_append, List.map_singleton, ← List.concat_eq_append]
      exact (hs.pks_nodup r).concat hnew
    · exact hs.pks_nodup r'
  · rw [(appendMapping_objects r m s).lastColumn]
    exact hs.column_fresh c (hcols ▸ hc)

end Schema

end KeyedSchema
