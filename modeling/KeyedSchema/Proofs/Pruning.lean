import KeyedSchema.Proofs.Cut
import KeyedSchema.Proofs.Lookups
import KeyedSchema.Proofs.Worklist

/-!
# Pruning — the tasks that removals and demotions consist of

Columns and mappings leave in a few kinds of tasks, `Prune`, for example to look whether a column is
an orphan, or to take a column out of its key. `Prune.step` says what each task does and which tasks
follow from it.

- `Shrinks` : what every run of such tasks does to a sound schema;
- `removeColumnWithin_worksOff`, `setRank_none_worksOff` : removals and demotions are such runs,
  and none of the look-ups on their way fails.
-/

namespace KeyedSchema

/-- A task of a removal or a demotion. -/
inductive Prune
  /-- Remove the column if it is there and no live relationship maps it. -/
  | check (c : ColumnId)
  | remove (c : ColumnId)
  /-- Number the key of a table whose cascades are enabled. -/
  | number (t : TableId)
  /-- Take the mapping of a parent column out and check its child column. -/
  | unmap (r : RelationshipId) (pk : ColumnId)
  /-- Take the column out of its key. -/
  | demote (c : ColumnId)
  /-- Take a child column out of its key unless another identifying relationship holds it there. -/
  | loosen (r : RelationshipId) (fk : ColumnId)
  /-- Take the mappings out whose parent columns are not listed, and check their child columns. -/
  | sweep (r : RelationshipId) (key : List ColumnId)
  deriving DecidableEq, Repr

namespace Prune

/-- What is left to do once a column is cut: its dependents may be orphans, and its key has a gap. -/
def afterCut (s : Schema) (c : ColumnId) : List Prune :=
  (s.dependentsOf c).map check ++ if s.isKey c then (s.owner? c).toList.map number else []

def step : Prune → Schema → List Prune × Schema
  | check c, s => (if s.columns.contains c && !s.isRetained c then [remove c] else [], s)
  | remove c, s => (afterCut s c, s.cut c)
  | number t, s => ([], if s.cascades t then s.normalizeKey t none else s)
  | unmap r pk, s =>
      match (s.mappingsOf r).findIdx? (fun m => m.pk = pk),
          (s.mappingsOf r).find? (fun m => m.pk = pk) with
      | some i, some m => ([check m.fk], s.removeMappingAt r m i)
      | _, _ => ([], s)
  | demote c, s =>
      match s.owner? c, s.rank? c with
      | some t, some k =>
          if s.cascades t then
            ((s.liveExportsOf t).map fun r => unmap r c,
              (s.changeRank c (some k) none).normalizeKey t none)
          else ([], s.changeRank c (some k) none)
      | _, _ => ([], s)
  | loosen r fk, s =>
      (if s.columns.contains fk && !s.isHeldInKey fk r then [demote fk] else [], s)
  | sweep r key, s =>
      match (s.mappingsOf r).findIdx? (fun m => m.pk ∉ key),
          (s.mappingsOf r).find? (fun m => m.pk ∉ key) with
      | some i, some m => ([check m.fk, sweep r key], s.removeMappingAt r m i)
      | _, _ => ([], s)

end Prune

namespace Schema

variable {s s' s'' : Schema} {t : TableId} {c : ColumnId} {r : RelationshipId} {ts : List Prune}

/-! ## What leaves stays away -/

/-- What a run of removals and demotions does to a schema: columns, key columns and mappings may
leave, and nothing comes. -/
structure Shrinks (s s' : Schema) : Prop where
  frame : SameFrame s s'
  lastColumn : s'.lastColumn = s.lastColumn
  columnKeys : s'.columns.keys.Sublist s.columns.keys
  owner? : ∀ c, s'.columns.contains c = true → s'.owner? c = s.owner? c
  isKey : ∀ c, s'.isKey c = true → s.isKey c = true
  mappingsOf : ∀ r, s'.mappingsOf r ⊆ s.mappingsOf r

namespace Shrinks

@[refl] theorem refl (s : Schema) : Shrinks s s :=
  ⟨.refl s, rfl, .refl _, fun _ _ => rfl, fun _ h => h, fun _ _ h => h⟩

theorem contains (h : Shrinks s s') (hc : s'.columns.contains c = true) :
    s.columns.contains c = true :=
  (Roster.mem_keys_iff _ _).mp (h.columnKeys.subset ((Roster.mem_keys_iff _ _).mpr hc))

theorem trans (h : Shrinks s s') (h' : Shrinks s' s'') : Shrinks s s'' :=
  ⟨h.frame.trans h'.frame, h'.lastColumn.trans h.lastColumn, h'.columnKeys.trans h.columnKeys,
    fun c hc => (h'.owner? c hc).trans (h.owner? c (h'.contains hc)),
    fun c hc => h.isKey c (h'.isKey c hc), fun r _ hm => h.mappingsOf r (h'.mappingsOf r hm)⟩

theorem size_le (h : Shrinks s s') : s'.columns.size ≤ s.columns.size := by
  rw [Roster.size_eq_length_keys, Roster.size_eq_length_keys]
  exact h.columnKeys.length_le

theorem isRetained (h : Shrinks s s') (hs : s.Sound) (hs' : s'.Sound)
    (hc : s'.isRetained c = true) : s.isRetained c = true := by
  obtain ⟨r, hl, m, hm, hfk⟩ := (hs'.isRetained_iff c).mp hc
  exact (hs.isRetained_iff c).mpr ⟨r, h.frame.isLive r ▸ hl, m, h.mappingsOf r hm, hfk⟩

end Shrinks

theorem Unmaps.shrinks (h : Unmaps s s') : Shrinks s s' :=
  ⟨h.sameFrame, h.lastColumn, by rw [h.columns], fun c _ => h.owner? c, fun c hc => h.isKey c ▸ hc,
    fun r => (h.mappingsOf r).subset⟩

theorem Reranks.shrinks (h : Reranks s s') (hk : ∀ c, s'.isKey c = true → s.isKey c = true) :
    Shrinks s s' :=
  ⟨h.sameFrame, h.lastColumn, by rw [h.sameShape.columnKeys], fun c _ => h.owner? c, hk,
    fun r => (h.mappingsOf r).subset⟩

theorem SameObjects.shrinks (h : SameObjects s s') : Shrinks s s' :=
  h.reranks.shrinks fun c hc => (isKey_congr (h.rank? c)).symm.trans hc

theorem Sound.shrinks_cut (hs : s.Sound) (hc : s.columns.contains c = true) :
    Shrinks s (s.cut c) where
  frame := sameFrame_cut c s
  lastColumn := hs.lastColumn_cut hc
  columnKeys := by
    rw [hs.columns_cut hc, Roster.keys_erase]
    exact List.filter_sublist
  owner? c' hc' := by
    rw [hs.columns_cut hc, Roster.contains_erase, Bool.and_eq_true] at hc'
    rw [hs.owner?_cut hc, if_neg (by simpa using hc'.1)]
  isKey c' hc' := by
    rw [hs.isKey_cut hc, Bool.and_eq_true] at hc'
    exact hc'.2
  mappingsOf r m hm := ((hs.mem_mappingsOf_cut hc).mp hm).1

theorem cut_of_not_contains (hc : s.columns.contains c = false) : s.cut c = s := by
  have ho : s.owner? c = none := by
    unfold Schema.owner?
    rw [(Roster.contains_eq_false_iff _ _).mp hc]
    rfl
  simp [cut, ho]

/-- The tasks that follow a cut look at columns that are mapped, or number a key. -/
theorem Sound.mem_afterCut (hs : s.Sound) {task : Prune} (ht : task ∈ Prune.afterCut s c) :
    (∃ f, task = .check f ∧ s.isRetained f = true) ∨ ∃ t, task = .number t := by
  rcases List.mem_append.mp ht with ht | ht
  · obtain ⟨f, hf, rfl⟩ := List.mem_map.mp ht
    obtain ⟨r, hl, m, hm, -, hfk⟩ := (hs.mem_dependentsOf f c).mp hf
    exact .inl ⟨f, rfl, (hs.isRetained_iff f).mpr ⟨r, hl, m, hm, hfk⟩⟩
  · split at ht
    · obtain ⟨t, -, rfl⟩ := List.mem_map.mp ht
      exact .inr ⟨t, rfl⟩
    · simp at ht

/-- Removing a column that is gone already leaves nothing to do. -/
theorem Sound.step_remove_of_not_contains (hs : s.Sound) (hc : s.columns.contains c = false) :
    (Prune.remove c).step s = ([], s) := by
  have hdep : s.dependentsOf c = [] := by
    refine List.eq_nil_iff_forall_not_mem.mpr fun f hf => ?_
    obtain ⟨r, -, m, hm, hpk, -⟩ := (hs.mem_dependentsOf f c).mp hf
    rw [← hpk, hs.pk_stored hm] at hc
    exact Bool.noConfusion hc
  have hkey : s.isKey c = false := by
    rw [Bool.eq_false_iff]
    intro hk
    rw [contains_of_isKey hk] at hc
    exact Bool.noConfusion hc
  simp [Prune.step, Prune.afterCut, hdep, hkey, cut_of_not_contains hc]

/-- Taking a column out of its key, before anything else happens. -/
theorem shrinks_changeRank (hc : s.columns.contains c = true) (old : Option Nat) :
    Shrinks s (s.changeRank c old none) := by
  refine (reranks_changeRank c old none s).shrinks fun c' hc' => ?_
  unfold isKey at hc' ⊢
  rw [rank?_changeRank c old none s hc] at hc'
  split at hc'
  · simp at hc'
  · exact hc'

theorem Sound.shrinks_normalizeKey (hs : s.Sound) (t : TableId) (placed : Option ColumnId) :
    Shrinks s (s.normalizeKey t placed) :=
  (reranks_normalizeKey t placed s).shrinks fun c hc => hs.isKey_normalizeKey t placed c ▸ hc

/-- Numbering a key moves ranks only. -/
theorem sameShape_number (t : TableId) (s : Schema) :
    SameShape s ((Prune.number t).step s).2 := by
  simp only [Prune.step]
  split
  · exact (reranks_normalizeKey t none s).sameShape
  · exact .refl s

/-- Taking a column out of its key moves ranks only. -/
theorem sameShape_demote (c : ColumnId) (s : Schema) :
    SameShape s ((Prune.demote c).step s).2 := by
  simp only [Prune.step]
  split
  · split
    · exact ((reranks_changeRank ..).trans (reranks_normalizeKey ..)).sameShape
    · exact (reranks_changeRank ..).sameShape
  · exact .refl s

/-- The other columns keep their places in the keys. -/
theorem Sound.isKey_demote (hs : s.Sound) (c x : ColumnId) :
    ((Prune.demote c).step s).2.isKey x = (s.isKey x && !decide (x = c)) := by
  simp only [Prune.step]
  split
  · rename_i t k ht _
    have hout : (s.changeRank c (some k) none).isKey x = (s.isKey x && !decide (x = c)) := by
      unfold isKey
      rw [rank?_changeRank c _ _ s (contains_of_owner? ht)]
      split <;> simp [*]
    split
    · exact (((reranks_changeRank ..).sound hs).isKey_normalizeKey t none x).trans hout
    · exact hout
  -- a column without a rank is in no key
  · rename_i hnone
    by_cases hx : x = c
    · subst hx
      cases hk : s.isKey x with
      | false => rfl
      | true =>
          rcases isKey_iff.mp hk with ⟨k, hk'⟩
          rcases hs.owned x (contains_of_isKey hk) with ⟨t, ht⟩
          exact (hnone t k ht hk').elim
    · simp [hx]

/-- Every task keeps a schema sound and takes out at most. -/
theorem Sound.prune_step (hs : s.Sound) (task : Prune) :
    (task.step s).2.Sound ∧ Shrinks s (task.step s).2 := by
  cases task with
  | check c => exact ⟨hs, .refl s⟩
  | remove c =>
      cases hc : s.columns.contains c with
      | false =>
          rw [hs.step_remove_of_not_contains hc]
          exact ⟨hs, .refl s⟩
      | true => exact ⟨hs.cut hc, hs.shrinks_cut hc⟩
  | number t =>
      simp only [Prune.step]
      split
      · exact ⟨(reranks_normalizeKey t none s).sound hs, hs.shrinks_normalizeKey t none⟩
      · exact ⟨hs, .refl s⟩
  | unmap r pk =>
      simp only [Prune.step]
      split
      · rename_i i m _ _
        have h := unmaps_removeMappingAt r m i s
        exact ⟨hs.of_unmaps h, h.shrinks⟩
      · exact ⟨hs, .refl s⟩
  | demote c =>
      simp only [Prune.step]
      split
      · rename_i t k ht _
        have hc := contains_of_owner? ht
        have hs₁ := (reranks_changeRank c (some k) none s).sound hs
        have h₁ := shrinks_changeRank hc (some k)
        split
        · exact ⟨(reranks_normalizeKey t none _).sound hs₁,
            h₁.trans (hs₁.shrinks_normalizeKey t none)⟩
        · exact ⟨hs₁, h₁⟩
      · exact ⟨hs, .refl s⟩
  | loosen r fk => exact ⟨hs, .refl s⟩
  | sweep r key =>
      simp only [Prune.step]
      split
      · rename_i i m _ _
        have h := unmaps_removeMappingAt r m i s
        exact ⟨hs.of_unmaps h, h.shrinks⟩
      · exact ⟨hs, .refl s⟩

theorem Sound.prune (hs : s.Sound) (h : WorksOff Prune.step ts s s') : s'.Sound ∧ Shrinks s s' := by
  -- a step needs a sound schema, so soundness is part of what is chained
  have hrel := h.relation (R := fun s s' => s.Sound → s'.Sound ∧ Shrinks s s')
    (fun s hs => ⟨hs, .refl s⟩)
    (fun s s₁ s₂ h₁ h₂ hs => ⟨(h₂ (h₁ hs).1).1, (h₁ hs).2.trans (h₂ (h₁ hs).1).2⟩)
    (fun task s hs => hs.prune_step task)
  exact hrel hs

end Schema

/-! ## The edits are runs of tasks -/

namespace Edit

open Schema

variable {s : Schema} {c : ColumnId} {r : RelationshipId}

/-- What removals are in need of: a sound schema with fewer columns than nested removals allowed. -/
structure Prunable (depth : Nat) (s₀ s : Schema) : Prop where
  sound : s.Sound
  frame : SameFrame s₀ s
  size : s.columns.size < depth

theorem Prunable.worksOff {depth : Nat} {s₀ s s' : Schema} {ts : List Prune}
    (h : Prunable depth s₀ s) (hw : WorksOff Prune.step ts s s') : Prunable depth s₀ s' := by
  obtain ⟨hs', hsh⟩ := h.sound.prune hw
  exact ⟨hs', h.frame.trans hsh.frame, Nat.lt_of_le_of_lt hsh.size_le h.size⟩

theorem removeIfOrphaned_worksOff {remove : ColumnId → Edit Column}
    (hremove : s.columns.contains c = true → (remove c).Ends
      (fun _ s' => WorksOff Prune.step [.remove c] s s') (fun _ _ => False) s) :
    (removeIfOrphaned remove c).Ends (fun _ s' => WorksOff Prune.step [.check c] s s')
      (fun _ _ => False) s := by
  unfold removeIfOrphaned
  simp only [ends_bind, ends_get]
  split
  · rename_i h
    have hc : s.columns.contains c = true := (Bool.and_eq_true_iff.mp h).1
    rw [ends_discard]
    refine (hremove hc).imp fun _ s' hw => .task ?_
    simpa [Prune.step, h] using hw
  · rename_i h
    refine .task ?_
    simpa [Prune.step, h] using WorksOff.done s

/-- Removing a stored column never fails and is a run of tasks. -/
theorem removeColumnWithin_worksOff (depth : Nat) : ∀ {s : Schema} {c : ColumnId}, s.Sound →
    s.columns.contains c = true → s.columns.size < depth →
    (removeColumnWithin depth c).Ends (fun _ s' => WorksOff Prune.step [.remove c] s s')
      (fun _ _ => False) s := by
  -- a nested removal finds one column less, so the depth is never used up
  induction depth with
  | zero => intro s c _ _ h; omega
  | succ depth ih =>
      intro s c hs hc hd
      obtain ⟨t, i, ht, hi, hcut⟩ := hs.cut_eq hc
      obtain ⟨tbl, htbl⟩ := hs.table_of_owner ht
      obtain ⟨col, hcol⟩ := (Roster.contains_iff _ _).mp hc
      have hi' : tbl.columns.idxOf? c = some i := by simpa [columnsOf, htbl] using hi
      have hkey : s.isKey c = col.isKey := isKey_of_get? hcol
      unfold removeColumnWithin
      simp only [ends_bind, ends_ownerOf_of ht, ends_table_of htbl, hi', ends_require_some,
        ends_column_of hcol, ends_change, ends_ask, dependentsOf_dropColumn, ← hcut]
      -- the orphans are looked after in a sound schema that has one column less
      have hp : Prunable depth s (s.cut c) := by
        refine ⟨hs.cut hc, sameFrame_cut c s, ?_⟩
        rw [hs.columns_cut hc]
        have := Roster.size_erase_lt hc
        omega
      refine (Ends.forM_worksOff Prune.step Prune.check
        (P := Prunable depth s) (fun f _ s₁ hp₁ => ?_) hp).imp fun _ s₂ h₂ => ?_
      · exact (removeIfOrphaned_worksOff fun hf => ih hp₁.sound hf hp₁.size).imp
          fun _ s' hw => ⟨hw, hp₁.worksOff hw⟩
      · obtain ⟨hw, hp₂⟩ := h₂
        obtain ⟨tbl₂, htbl₂⟩ := (Roster.contains_iff _ _).mp
          ((hp₂.frame.contains_table t).trans (Roster.contains_of_get? htbl))
        have hcasc : s₂.cascades t = tbl₂.cascades := by simp [cascades, htbl₂]
        have hdone : ∀ s₃, WorksOff Prune.step
            (if s.isKey c then (s.owner? c).toList.map Prune.number else []) s₂ s₃ →
            WorksOff Prune.step [.remove c] s s₃ := by
          intro s₃ h₃
          refine .task ?_
          simpa [Prune.step, Prune.afterCut] using hw.append h₃
        cases hk : col.isKey with
        | false =>
            simp only [Bool.false_eq_true, if_false, ends_pure]
            exact hdone s₂ (by simpa [hkey, hk] using WorksOff.done s₂)
        | true =>
            simp only [if_true, ends_bind, ends_table_of htbl₂]
            have hnumber : ∀ s₃, s₃ = (if s₂.cascades t then s₂.normalizeKey t none else s₂) →
                WorksOff Prune.step [.remove c] s s₃ := by
              rintro s₃ rfl
              refine hdone _ ?_
              simp only [hkey, hk, if_true, ht, Option.toList_some, List.map_cons, List.map_nil]
              exact .task (.done _)
            cases hx : tbl₂.cascades with
            | false => exact hnumber s₂ (by simp [hcasc, hx])
            | true =>
                have ht₂ := Roster.contains_of_get? htbl₂
                simp only [if_true, ends_bind, ends_normalizeKey_of hp₂.sound ht₂, ends_pure]
                exact hnumber _ (by simp [hcasc, hx])

theorem removeColumnCascade_worksOff (hs : s.Sound) (hc : s.columns.contains c = true) :
    (removeColumnCascade c).Ends (fun _ s' => WorksOff Prune.step [.remove c] s s')
      (fun _ _ => False) s := by
  unfold removeColumnCascade
  simp only [ends_bind, ends_get]
  exact removeColumnWithin_worksOff _ hs hc (Nat.lt_succ_self _)

theorem removeOrphan_worksOff (hs : s.Sound) (c : ColumnId) :
    (removeOrphan c).Ends (fun _ s' => WorksOff Prune.step [.check c] s s') (fun _ _ => False) s :=
  removeIfOrphaned_worksOff fun hc => removeColumnCascade_worksOff hs hc

theorem unmapDemoted_worksOff (hs : s.Sound) (hr : s.relationships.contains r = true)
    (pk : ColumnId) :
    (unmapDemoted r pk).Ends (fun _ s' => WorksOff Prune.step [.unmap r pk] s s')
      (fun _ _ => False) s := by
  obtain ⟨rel, hrel⟩ := (Roster.contains_iff _ _).mp hr
  have hm : s.mappingsOf r = rel.mappings := by simp [mappingsOf, hrel]
  unfold unmapDemoted
  simp only [ends_bind, ends_relationship_of hrel, Relationship.mappingOf?]
  split
  · rename_i i m hi hfind
    simp only [ends_bind, ends_change]
    have hs₁ := hs.of_unmaps (unmaps_removeMappingAt r m i s)
    refine (removeOrphan_worksOff hs₁ m.fk).imp fun _ s' hw => .task ?_
    simpa [Prune.step, hm, hi, hfind] using hw
  · refine .task ?_
    simp only [Prune.step, hm]
    exact .done s

/-- Taking a stored column out of its key never fails and is a run of tasks. -/
theorem setRank_none_worksOff (promote : ColumnId → Edit Unit) (hs : s.Sound)
    (hc : s.columns.contains c = true) :
    (setRank promote c none).Ends (fun _ s' => WorksOff Prune.step [.demote c] s s')
      (fun _ _ => False) s := by
  obtain ⟨col, hcol⟩ := (Roster.contains_iff _ _).mp hc
  obtain ⟨t, ht⟩ := hs.owned c hc
  obtain ⟨tbl, htbl⟩ := hs.table_of_owner ht
  have hrank : s.rank? c = col.rank := rank?_of_get? hcol
  have hcasc : s.cascades t = tbl.cascades := by simp [cascades, htbl]
  unfold setRank
  simp only [ends_bind, ends_column_of hcol]
  cases hk : col.rank with
  | none =>
      refine .task ?_
      simpa [Prune.step, ht, hrank, hk] using WorksOff.done s
  | some k =>
      -- the schema once the rank is gone
      have hre := reranks_changeRank c (some k) none s
      have ht₁ : (s.changeRank c (some k) none).owner? c = some t := (hre.owner? c).trans ht
      have htbl₁ : (s.changeRank c (some k) none).tables.get? t = some tbl := hre.tables ▸ htbl
      simp only [ne_eq, reduceCtorEq, not_false_eq_true, if_true, ends_bind, ends_change]
      unfold afterRankChange
      simp only [ends_bind, ends_ownerOf_of ht₁, ends_table_of htbl₁]
      cases hx : tbl.cascades with
      | false =>
          refine .task ?_
          simpa [Prune.step, ht, hrank, hk, hcasc, hx] using WorksOff.done _
      | true =>
          have hs₁ := hre.sound hs
          simp only [if_true, ends_bind, ends_normalizeKey_of hs₁ (Roster.contains_of_get? htbl₁),
            ends_ask, Option.map_none]
          have hre₂ := reranks_normalizeKey t none (s.changeRank c (some k) none)
          have hs₂ := hre₂.sound hs₁
          have hexp : ((s.changeRank c (some k) none).normalizeKey t none).liveExportsOf t =
              s.liveExportsOf t := (hre.trans hre₂).sameFrame.liveExportsOf t
          rw [hexp]
          refine (Ends.forM_worksOff Prune.step (fun r => Prune.unmap r c)
            (P := fun s₁ => s₁.Sound ∧ SameFrame s s₁) (fun r hr s₁ h₁ => ?_)
            ⟨hs₂, (hre.trans hre₂).sameFrame⟩).imp fun _ s' h => .task ?_
          · obtain ⟨hs₁, hf⟩ := h₁
            obtain ⟨rel, hrel, -⟩ := hs.relationship_of_export (mem_liveExportsOf.mp hr).1
            have hr₁ : s₁.relationships.contains r = true :=
              (hf.contains_relationship r).trans (Roster.contains_of_get? hrel)
            refine (unmapDemoted_worksOff hs₁ hr₁ c).imp fun _ s₂ h₂ => ⟨h₂, ?_⟩
            obtain ⟨hs₂, hsh⟩ := hs₁.prune h₂
            exact ⟨hs₂, hf.trans hsh.frame⟩
          · simpa [Prune.step, ht, hrank, hk, hcasc, hx] using h.1

/-- Sweeping drops one mapping a round, so it is done after as many rounds as there are mappings. -/
theorem dropStrayMappings_worksOff (key : List ColumnId) (rounds : Nat) : ∀ {s : Schema}, s.Sound →
    s.relationships.contains r = true → (s.mappingsOf r).length ≤ rounds →
    (dropStrayMappings r key rounds).Ends (fun _ s' => WorksOff Prune.step [.sweep r key] s s')
      (fun _ _ => False) s := by
  -- cascades may take further mappings of `r` along, but never add one
  induction rounds with
  | zero =>
      intro s _ _ hlen
      have hm : s.mappingsOf r = [] := List.eq_nil_of_length_eq_zero (by omega)
      refine .task ?_
      simpa [Prune.step, hm] using WorksOff.done s
  | succ rounds ih =>
      intro s hs hr hlen
      obtain ⟨rel, hrel⟩ := (Roster.contains_iff _ _).mp hr
      have hm : s.mappingsOf r = rel.mappings := by simp [mappingsOf, hrel]
      unfold dropStrayMappings
      simp only [ends_bind, ends_relationship_of hrel]
      split
      · rename_i i m hi hfind
        simp only [ends_bind, ends_change]
        have hun := unmaps_removeMappingAt r m i s
        have hs₁ := hs.of_unmaps hun
        refine (removeOrphan_worksOff hs₁ m.fk).imp fun _ s₂ h₂ => ?_
        obtain ⟨hs₂, hsh₂⟩ := hs₁.prune h₂
        have hr₂ : s₂.relationships.contains r = true := by
          rw [hsh₂.frame.contains_relationship, hun.sameFrame.contains_relationship]
          exact hr
        -- one mapping of `r` less is left for the other rounds
        have hlen₂ : (s₂.mappingsOf r).length ≤ rounds := by
          have hlt : i < rel.mappings.length := (List.findIdx?_eq_some_iff_findIdx_eq.mp hi).1
          have hle := (hs₂.mappings_nodup r).length_le_of_subset (hsh₂.mappingsOf r)
          rw [mappingsOf_removeMappingAt, if_pos rfl, hm, List.length_eraseIdx_of_lt hlt] at hle
          rw [hm] at hlen
          omega
        refine (ih hs₂ hr₂ hlen₂).imp fun _ s' h' => .task ?_
        simp only [Prune.step, hm, hi, hfind]
        exact h₂.append h'
      · refine .task ?_
        simp only [Prune.step, hm]
        exact .done s

end Edit

end KeyedSchema
