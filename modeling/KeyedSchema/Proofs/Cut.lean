import KeyedSchema.Proofs.Integrity

/-!
# Cut — one column leaves with the mappings that refer to it

`cut c` takes a column out of its table and out of the schema, and every mapping that has it on
either side. Of everything else nothing changes: the lists of columns and mappings are filtered,
and a sound schema stays sound.

`Unmaps` says that a change takes mappings out and does nothing else.
-/

namespace KeyedSchema

namespace Schema

variable {s s' s'' : Schema} {t t' : TableId} {c c' : ColumnId} {r r' : RelationshipId}

/-! ## Taking mappings out -/

/-- Whether the second schema is the first one without some mappings. -/
structure Unmaps (s s' : Schema) : Prop where
  config : s'.config = s.config
  tables : s'.tables = s.tables
  columns : s'.columns = s.columns
  relationships : s'.relationships.map Relationship.frame = s.relationships.map Relationship.frame
  mappingsOf : ∀ r, (s'.mappingsOf r).Sublist (s.mappingsOf r)
  lastTable : s'.lastTable = s.lastTable
  lastColumn : s'.lastColumn = s.lastColumn
  lastRelationship : s'.lastRelationship = s.lastRelationship

namespace Unmaps

@[refl] theorem refl (s : Schema) : Unmaps s s :=
  ⟨rfl, rfl, rfl, rfl, fun _ => .refl _, rfl, rfl, rfl⟩

theorem trans (h : Unmaps s s') (h' : Unmaps s' s'') : Unmaps s s'' :=
  ⟨h'.config.trans h.config, h'.tables.trans h.tables, h'.columns.trans h.columns,
    h'.relationships.trans h.relationships, fun r => (h'.mappingsOf r).trans (h.mappingsOf r),
    h'.lastTable.trans h.lastTable, h'.lastColumn.trans h.lastColumn,
    h'.lastRelationship.trans h.lastRelationship⟩

theorem sameFrame (h : Unmaps s s') : SameFrame s s' :=
  ⟨h.config, by rw [h.tables], h.relationships, h.lastTable, h.lastRelationship⟩

theorem columnsOf (h : Unmaps s s') (t : TableId) : s'.columnsOf t = s.columnsOf t := by
  unfold Schema.columnsOf
  rw [h.tables]

theorem owner? (h : Unmaps s s') (c : ColumnId) : s'.owner? c = s.owner? c := by
  unfold Schema.owner?
  rw [h.columns]

theorem rank? (h : Unmaps s s') (c : ColumnId) : s'.rank? c = s.rank? c :=
  rank?_of_columns h.columns c

theorem isKey (h : Unmaps s s') (c : ColumnId) : s'.isKey c = s.isKey c :=
  isKey_congr (h.rank? c)

/-- Taking mappings out by a change of relationships alone. -/
theorem of_change {r : RelationshipId} {f : Relationship → Relationship}
    (h : SameObjects (s.changeRelationship r f) s') (hf : ∀ rel, (f rel).frame = rel.frame)
    (hm : ∀ rel, (f rel).mappings.Sublist rel.mappings) : Unmaps s s' := by
  refine ⟨h.config, h.tables, h.columns, ?_, fun r' => ?_, h.lastTable, h.lastColumn,
    h.lastRelationship⟩
  · rw [h.relationships]
    exact Roster.map_modify _ _ _ _ hf
  · unfold Schema.mappingsOf
    rw [h.relationships]
    by_cases heq : r' = r
    · subst heq
      cases hr : s.relationships.get? r' with
      | none => simp [changeRelationship, hr]
      | some rel => simpa [changeRelationship, hr] using hm rel
    · simp [changeRelationship, heq]

end Unmaps

theorem Sound.of_unmaps (hs : s.Sound) (h : Unmaps s s') : s'.Sound := by
  refine hs.of_sameFrame h.sameFrame (h.columns ▸ hs.columns_nodup)
    (fun t => h.columnsOf t ▸ hs.columnsOf_nodup t) (fun t c => ?_) (fun c hc => ?_)
    (fun r m hm => ?_) (fun r => ?_) fun c hc => ?_
  · rw [h.columnsOf, h.owner?]
    exact hs.listed t c
  · rw [h.owner?]
    exact hs.owned c (h.columns ▸ hc)
  · simp only [h.owner?]
    exact hs.mapped r m ((h.mappingsOf r).subset hm)
  · exact (hs.pks_nodup r).sublist ((h.mappingsOf r).map Mapping.pk)
  · rw [h.lastColumn]
    exact hs.column_fresh c (h.columns ▸ hc)

theorem unmaps_removeMappingAt (r : RelationshipId) (m : Mapping) (i : Nat) (s : Schema) :
    Unmaps s (s.removeMappingAt r m i) :=
  .of_change (SameObjects.raise _ _) (fun _ => rfl) fun _ => List.eraseIdx_sublist ..

theorem unmaps_unmapWhere (p : Mapping → Bool) (r : RelationshipId) (s : Schema) :
    Unmaps s (s.unmapWhere p r) := by
  unfold unmapWhere
  split
  · rfl
  · exact .of_change (SameObjects.raiseAll _ _) (fun _ => rfl) fun _ => List.filter_sublist

theorem unmaps_clearMappings (r : RelationshipId) (s : Schema) : Unmaps s (s.clearMappings r) := by
  unfold clearMappings
  split
  · rfl
  · exact .of_change (SameObjects.raiseAll _ _) (fun _ => rfl) fun _ => List.nil_sublist _

theorem mappingsOf_unmapWhere (p : Mapping → Bool) (r r' : RelationshipId) (s : Schema) :
    (s.unmapWhere p r).mappingsOf r' =
      if r' = r then (s.mappingsOf r).filter fun m => !p m else s.mappingsOf r' := by
  unfold unmapWhere Schema.mappingsOf
  cases hr : s.relationships.get? r with
  | none =>
      by_cases h : r' = r
      · simp [h, hr]
      · simp [h]
  | some rel =>
      by_cases h : r' = r
      · simp [h, changeRelationship, hr]
      · simp [h, changeRelationship]

theorem mappingsOf_clearMappings (r r' : RelationshipId) (s : Schema) :
    (s.clearMappings r).mappingsOf r' = if r' = r then [] else s.mappingsOf r' := by
  unfold clearMappings Schema.mappingsOf
  cases hr : s.relationships.get? r with
  | none =>
      by_cases h : r' = r
      · simp [h, hr]
      · simp [h]
  | some rel =>
      by_cases h : r' = r
      · simp [h, changeRelationship, hr]
      · simp [h, changeRelationship]

theorem mappingsOf_removeMappingAt (r r' : RelationshipId) (m : Mapping) (i : Nat) (s : Schema) :
    (s.removeMappingAt r m i).mappingsOf r' =
      if r' = r then (s.mappingsOf r).eraseIdx i else s.mappingsOf r' := by
  unfold removeMappingAt Schema.mappingsOf
  by_cases h : r' = r
  · cases hr : s.relationships.get? r <;> simp [h, changeRelationship, hr]
  · simp [h, changeRelationship]

/-- Taking out the first mapping of a kind leaves all others. -/
theorem mem_removeMappingAt {p : Mapping → Bool} {m : Mapping} {i : Nat}
    (hi : (s.mappingsOf r).findIdx? p = some i) (hm : (s.mappingsOf r).find? p = some m)
    {m' : Mapping} (hm' : m' ∈ s.mappingsOf r') :
    (r' = r ∧ m' = m) ∨ m' ∈ (s.removeMappingAt r m i).mappingsOf r' := by
  rw [mappingsOf_removeMappingAt]
  split
  · rename_i heq
    subst heq
    rw [List.find?_eq_bind_findIdx?_getElem?, hi, Option.bind_some] at hm
    obtain ⟨j, hj⟩ := List.mem_iff_getElem?.mp hm'
    by_cases hji : j = i
    · rw [hji, hm] at hj
      exact .inl ⟨rfl, (Option.some.inj hj).symm⟩
    · exact .inr (List.mem_eraseIdx_iff_getElem?.mpr ⟨j, hji, hj⟩)
  · exact .inr hm'

/-- The mapping that is taken out is not there any more, since a relationship has it only once. -/
theorem Sound.notMem_removeMappingAt (hs : s.Sound) {p : Mapping → Bool} {m : Mapping} {i : Nat}
    (hi : (s.mappingsOf r).findIdx? p = some i) (hm : (s.mappingsOf r).find? p = some m) :
    m ∉ (s.removeMappingAt r m i).mappingsOf r := by
  rw [mappingsOf_removeMappingAt, if_pos rfl]
  rw [List.find?_eq_bind_findIdx?_getElem?, hi, Option.bind_some] at hm
  intro hm'
  rcases List.mem_eraseIdx_iff_getElem?.mp hm' with ⟨j, hj, hget⟩
  rcases List.getElem?_eq_some_iff.mp hm with ⟨hlt, -⟩
  exact hj ((List.getElem?_inj hlt (hs.mappings_nodup r)).mp (hm.trans hget.symm)).symm

/-- When nothing is found, nothing is of the kind. -/
theorem eq_false_of_not_found {p : Mapping → Bool} {ms : List Mapping}
    (h : ∀ i m, ms.findIdx? p = some i → ms.find? p = some m → False) {m : Mapping} (hm : m ∈ ms) :
    p m = false := by
  rw [Bool.eq_false_iff]
  intro hp
  obtain ⟨i, hi⟩ := Option.isSome_iff_exists.mp
    (List.findIdx?_isSome.trans (List.any_eq_true.mpr ⟨m, hm, hp⟩))
  obtain ⟨m', hm'⟩ := Option.isSome_iff_exists.mp (List.find?_isSome.mpr ⟨m, hm, hp⟩)
  exact h i m' hi hm'

/-! ## Taking out what refers to a column -/

theorem unmaps_unmapColumn (c : ColumnId) (s : Schema) : Unmaps s (s.unmapColumn c) := by
  unfold unmapColumn
  generalize s.mappersOf c = rs
  induction rs generalizing s with
  | nil => rfl
  | cons r rs ih => exact (unmaps_unmapWhere _ r s).trans (ih _)

theorem mappingsOf_foldl_unmapWhere (p : Mapping → Bool) (rs : List RelationshipId) (s : Schema) :
    (rs.foldl (fun s r => s.unmapWhere p r) s).mappingsOf r =
      if r ∈ rs then (s.mappingsOf r).filter fun m => !p m else s.mappingsOf r := by
  induction rs generalizing s with
  | nil => simp
  | cons r' rs ih =>
      rw [List.foldl_cons, ih, mappingsOf_unmapWhere]
      by_cases h : r = r' <;> by_cases h' : r ∈ rs <;> simp [h, h']

/-- The mappings that are left when a column is unmapped: those that do not refer to it. -/
theorem mappingsOf_unmapColumn (hs : s.relationships.keys.Nodup) (c : ColumnId) (r : RelationshipId) :
    (s.unmapColumn c).mappingsOf r =
      (s.mappingsOf r).filter fun m => decide (m.pk ≠ c) && decide (m.fk ≠ c) := by
  unfold unmapColumn
  rw [mappingsOf_foldl_unmapWhere]
  have hp : (fun m : Mapping => !(decide (m.pk = c) || decide (m.fk = c))) =
      fun m => decide (m.pk ≠ c) && decide (m.fk ≠ c) := by
    funext m
    simp
  rw [hp]
  split
  · rfl
  · rename_i hr
    symm
    rw [List.filter_eq_self]
    intro m hm
    by_contra hne
    refine hr ((mem_mappersOf hs).mpr ⟨m, hm, ?_⟩)
    simp only [Bool.and_eq_true, decide_eq_true_eq, ne_eq] at hne
    tauto

/-- Erasing the place where an element is found leaves the other elements. -/
theorem eraseIdx_eq_filter_ne {α : Type} [DecidableEq α] {xs : List α} {x : α} {i : Nat}
    (hnd : xs.Nodup) (hi : xs.idxOf? x = some i) :
    xs.eraseIdx i = xs.filter fun y => decide (y ≠ x) := by
  have hne : (fun y : α => decide (y ≠ x)) = fun y => y != x := by
    funext y
    by_cases h : y = x <;> simp [h]
  have h := hnd.erase_eq_filter x
  rw [List.erase_eq_eraseIdx, hi] at h
  rw [hne]
  exact h

theorem filter_ne_of_notMem {α : Type} [DecidableEq α] {xs : List α} {x : α} (h : x ∉ xs) :
    xs.filter (fun y => decide (y ≠ x)) = xs := by
  rw [List.filter_eq_self]
  intro y hy
  have hne : y ≠ x := fun heq => h (heq ▸ hy)
  simpa using hne

/-! ## Cutting a column out -/

/-- Take a column out of its table and out of the schema, and every mapping that refers to it. -/
def cut (c : ColumnId) (s : Schema) : Schema :=
  match s.owner? c with
  | none => s
  | some t =>
      match (s.columnsOf t).idxOf? c with
      | none => s
      | some i => (s.dropColumn t i c).unmapColumn c

/-- The schema between the two halves of a cut. -/
theorem dropColumn_objects (t : TableId) (i : Nat) (c : ColumnId) (s : Schema) :
    SameObjects { s.changeTable t fun tbl => { tbl with columns := tbl.columns.eraseIdx i } with
      columns := s.columns.erase c } (s.dropColumn t i c) := SameObjects.raise _ _

theorem sameFrame_dropColumn (t : TableId) (i : Nat) (c : ColumnId) (s : Schema) :
    SameFrame s (s.dropColumn t i c) := by
  have h := dropColumn_objects t i c s
  refine ⟨h.config, ?_, by rw [h.relationships]; rfl, h.lastTable, h.lastRelationship⟩
  rw [h.tables]
  exact Roster.map_modify _ _ _ _ fun _ => rfl

theorem dependentsOf_dropColumn (t : TableId) (i : Nat) (c : ColumnId) (s : Schema) :
    (s.dropColumn t i c).dependentsOf c = s.dependentsOf c := by
  have hrel : (s.dropColumn t i c).relationships = s.relationships :=
    (dropColumn_objects t i c s).relationships
  unfold dependentsOf mappersOf
  rw [hrel, funext (sameFrame_dropColumn t i c s).isLive]

theorem sameFrame_cut (c : ColumnId) (s : Schema) : SameFrame s (s.cut c) := by
  unfold cut
  split
  · rfl
  · split
    · rfl
    · exact (sameFrame_dropColumn ..).trans (unmaps_unmapColumn ..).sameFrame

namespace Sound

theorem idxOf?_of_owner (hs : s.Sound) (h : s.owner? c = some t) :
    ∃ i, (s.columnsOf t).idxOf? c = some i :=
  Option.isSome_iff_exists.mp (List.isSome_idxOf?.mpr ((hs.listed t c).mpr h))

/-- What a cut of a stored column is made of. -/
theorem cut_eq (hs : s.Sound) (hc : s.columns.contains c = true) :
    ∃ t i, s.owner? c = some t ∧ (s.columnsOf t).idxOf? c = some i ∧
      s.cut c = (s.dropColumn t i c).unmapColumn c := by
  obtain ⟨t, ht⟩ := hs.owned c hc
  obtain ⟨i, hi⟩ := hs.idxOf?_of_owner ht
  exact ⟨t, i, ht, hi, by simp [cut, ht, hi]⟩

theorem columns_cut (hs : s.Sound) (hc : s.columns.contains c = true) :
    (s.cut c).columns = s.columns.erase c := by
  obtain ⟨t, i, -, -, h⟩ := hs.cut_eq hc
  rw [h, (unmaps_unmapColumn c _).columns, (dropColumn_objects t i c s).columns]

theorem lastColumn_cut (hs : s.Sound) (hc : s.columns.contains c = true) :
    (s.cut c).lastColumn = s.lastColumn := by
  obtain ⟨t, i, -, -, h⟩ := hs.cut_eq hc
  rw [h, (unmaps_unmapColumn c _).lastColumn, (dropColumn_objects t i c s).lastColumn]
  rfl

theorem columnsOf_cut (hs : s.Sound) (hc : s.columns.contains c = true) (t' : TableId) :
    (s.cut c).columnsOf t' = (s.columnsOf t').filter fun c' => decide (c' ≠ c) := by
  obtain ⟨t, i, ht, hi, h⟩ := hs.cut_eq hc
  rw [h, (unmaps_unmapColumn c _).columnsOf]
  unfold columnsOf
  rw [(dropColumn_objects t i c s).tables]
  by_cases heq : t' = t
  · subst heq
    obtain ⟨tbl, htbl⟩ := hs.table_of_owner ht
    have hcols : s.columnsOf t' = tbl.columns := by simp [columnsOf, htbl]
    have hnd : tbl.columns.Nodup := hcols ▸ hs.columnsOf_nodup t'
    have herase := eraseIdx_eq_filter_ne hnd (hcols ▸ hi)
    simp [changeTable, htbl, herase]
  · have hnot : c ∉ s.columnsOf t' := by
      rw [hs.listed, ht]
      simpa using fun h => heq h.symm
    simp only [changeTable, Roster.get?_modify, heq, if_false]
    exact (filter_ne_of_notMem hnot).symm

theorem owner?_cut (hs : s.Sound) (hc : s.columns.contains c = true) (c' : ColumnId) :
    (s.cut c).owner? c' = if c' = c then none else s.owner? c' := by
  unfold owner?
  rw [hs.columns_cut hc, Roster.get?_erase]
  split <;> rfl

theorem rank?_cut (hs : s.Sound) (hc : s.columns.contains c = true) (c' : ColumnId) :
    (s.cut c).rank? c' = if c' = c then none else s.rank? c' := by
  unfold rank?
  rw [hs.columns_cut hc, Roster.get?_erase]
  split <;> rfl

theorem isKey_cut (hs : s.Sound) (hc : s.columns.contains c = true) (c' : ColumnId) :
    (s.cut c).isKey c' = (!decide (c' = c) && s.isKey c') := by
  unfold isKey
  rw [hs.rank?_cut hc]
  by_cases h : c' = c <;> simp [h]

theorem mappingsOf_cut (hs : s.Sound) (hc : s.columns.contains c = true) (r : RelationshipId) :
    (s.cut c).mappingsOf r =
      (s.mappingsOf r).filter fun m => decide (m.pk ≠ c) && decide (m.fk ≠ c) := by
  obtain ⟨t, i, -, -, h⟩ := hs.cut_eq hc
  have hrel : (s.dropColumn t i c).relationships = s.relationships :=
    (dropColumn_objects t i c s).relationships
  rw [h, mappingsOf_unmapColumn (hrel ▸ hs.relationships_nodup)]
  unfold mappingsOf
  rw [hrel]

theorem mem_mappingsOf_cut (hs : s.Sound) (hc : s.columns.contains c = true) {m : Mapping} :
    m ∈ (s.cut c).mappingsOf r ↔ m ∈ s.mappingsOf r ∧ m.pk ≠ c ∧ m.fk ≠ c := by
  simp [hs.mappingsOf_cut hc]

theorem cut (hs : s.Sound) (hc : s.columns.contains c = true) : (s.cut c).Sound := by
  refine hs.of_sameFrame (sameFrame_cut c s) ?_ (fun t => ?_) (fun t c' => ?_) (fun c' hc' => ?_)
    (fun r m hm => ?_) (fun r => ?_) fun c' hc' => ?_
  · rw [hs.columns_cut hc]
    exact Roster.nodup_keys_erase hs.columns_nodup c
  · rw [hs.columnsOf_cut hc]
    exact (hs.columnsOf_nodup t).filter _
  · rw [hs.columnsOf_cut hc, hs.owner?_cut hc, List.mem_filter, hs.listed]
    by_cases h : c' = c <;> simp [h]
  · rw [hs.columns_cut hc, Roster.contains_erase, Bool.and_eq_true] at hc'
    obtain ⟨hne, hc'⟩ := hc'
    rw [hs.owner?_cut hc, if_neg (by simpa using hne)]
    exact hs.owned c' hc'
  -- the mappings of the column are gone, and the others keep their columns
  · obtain ⟨hm, hpk, hfk⟩ := (hs.mem_mappingsOf_cut hc).mp hm
    simp only [hs.owner?_cut hc, hpk, hfk, if_false]
    exact hs.mapped r m hm
  · rw [hs.mappingsOf_cut hc]
    exact (hs.pks_nodup r).sublist (List.filter_sublist.map Mapping.pk)
  · rw [hs.columns_cut hc, Roster.contains_erase, Bool.and_eq_true] at hc'
    rw [hs.lastColumn_cut hc]
    exact hs.column_fresh c' hc'.2

end Sound

end Schema

end KeyedSchema
