import KeyedSchema.Proofs.Pruning

/-!
# Accounting — which columns go when others do

A removal asks for some columns and takes **orphans** along: columns that a live relationship mapped
before and none maps afterwards. `Accounts` says so of one change, and such changes can be chained.

For cascades, `Tracks` says how far a run of tasks has come. A column that may have become an orphan
is still to be checked, and nothing is checked that no live relationship mapped in the beginning.
One task keeps it, so at the end of a run, with nothing left to do, every orphan is gone.
-/

namespace KeyedSchema

namespace Schema

variable {s s' s'' : Schema} {t : TableId} {c : ColumnId} {r : RelationshipId}
  {spared kept : ColumnId → Prop}

theorem SameShape.isRetained (h : SameShape s s') (hs : s.Sound) (c : ColumnId) :
    s'.isRetained c = s.isRetained c := by
  rw [Bool.eq_iff_iff, hs.isRetained_iff, (hs.of_sameShape h).isRetained_iff]
  simp only [h.isLive, h.mem_mappingsOf]

/-! ## Accounting for columns -/

/-- Whether every column that goes is asked for or an orphan, and every orphan goes. The columns
that are asked for satisfy `spared`. -/
structure Accounts (spared : ColumnId → Prop) (s s' : Schema) : Prop where
  stored : ∀ c, s'.columns.contains c = true → s.columns.contains c = true
  gone : ∀ c, s.columns.contains c = true → s'.columns.contains c = false →
    spared c ∨ s.isRetained c = true
  retained : ∀ c, s'.isRetained c = true → s.isRetained c = true
  left : ∀ c, s.isRetained c = true → s'.columns.contains c = true → s'.isRetained c = true

namespace Accounts

theorem trans (h : Accounts spared s s') (h' : Accounts spared s' s'') : Accounts spared s s'' where
  stored c hc := h.stored c (h'.stored c hc)
  gone c hc hc'' := by
    cases hc' : s'.columns.contains c with
    | false => exact h.gone c hc hc'
    | true => exact (h'.gone c hc' hc'').imp id (h.retained c)
  retained c hc := h.retained c (h'.retained c hc)
  left c hc hc'' := h'.left c (h.left c hc (h'.stored c hc'')) hc''

theorem mono {spared' : ColumnId → Prop} (h : Accounts spared s s')
    (hspared : ∀ c, spared c → spared' c) : Accounts spared' s s' where
  stored := h.stored
  gone c hc hc' := (h.gone c hc hc').imp (hspared c) id
  retained := h.retained
  left := h.left

/-- The columns that go are exactly those that lose their last live mapping. -/
theorem gone_iff (h : Accounts spared s s') (hs : s.Sound) (hs' : s'.Sound) (hc : ¬ spared c) :
    (s.columns.contains c = true ∧ s'.columns.contains c = false) ↔
      (s.isRetained c = true ∧ s'.isRetained c = false) := by
  constructor
  · rintro ⟨hin, hout⟩
    refine ⟨(h.gone c hin hout).resolve_left hc, ?_⟩
    rw [Bool.eq_false_iff] at hout ⊢
    exact fun hret => hout (hs'.stored_of_isRetained hret)
  · rintro ⟨hret, hnot⟩
    refine ⟨hs.stored_of_isRetained hret, ?_⟩
    rw [Bool.eq_false_iff] at hnot ⊢
    exact fun hin => hnot (h.left c hret hin)

end Accounts

theorem SameShape.accounts (h : SameShape s s') (hs : s.Sound) : Accounts spared s s' where
  stored c hc := h.contains_column c ▸ hc
  gone c hc hc' := by
    rw [h.contains_column, hc] at hc'
    exact absurd hc' Bool.noConfusion
  retained c hc := h.isRetained hs c ▸ hc
  left c hc _ := (h.isRetained hs c).trans hc

/-! ## How far a run has come -/

/-- Whether a task may be worked off: what it checks was mapped in the beginning, what it removes
was so or is asked for, and it takes mappings out of live relationships only. -/
def Justified (spared kept : ColumnId → Prop) (s : Schema) : Prune → Prop
  | .check c => kept c
  | .remove c => spared c ∨ kept c
  | .unmap r _ => s.isLive r = true
  | .sweep r _ => s.isLive r = true
  | _ => True

/-- How far a run of removals has come that started with the schema `s₀`, in which the columns that
satisfy `kept` were mapped. -/
structure Tracks (spared kept : ColumnId → Prop) (s₀ : Schema) (tasks : List Prune) (s : Schema) :
    Prop where
  sound : s.Sound
  shrinks : Shrinks s₀ s
  gone : ∀ c, s₀.columns.contains c = true → s.columns.contains c = false → spared c ∨ kept c
  retained : ∀ c, s.isRetained c = true → kept c
  /-- A column without a live mapping is still to be looked at. -/
  pending : ∀ c, kept c → s.columns.contains c = true →
    s.isRetained c = true ∨ .check c ∈ tasks ∨ .remove c ∈ tasks
  justified : ∀ task ∈ tasks, Justified spared kept s₀ task

variable {s₀ : Schema} {task : Prune} {tasks new : List Prune}

theorem Justified.frame (h : Justified spared kept s task) (hf : SameFrame s s') :
    Justified spared kept s' task := by
  cases task with
  | unmap r pk => exact (hf.isLive r).trans h
  | sweep r key => exact (hf.isLive r).trans h
  | _ => exact h

/-- A task is worked off if what goes is accounted for, and what it was to look at or leaves
without a live mapping is in the new tasks. -/
theorem Tracks.advance (h : Tracks spared kept s₀ (task :: tasks) s) (hs' : s'.Sound)
    (hsh : Shrinks s s')
    (hgone : ∀ c, s.columns.contains c = true → s'.columns.contains c = false → spared c ∨ kept c)
    (hnew : ∀ task' ∈ new, Justified spared kept s task')
    (hpending : ∀ c, s'.columns.contains c = true →
      (s.isRetained c = true ∨ task = .check c ∨ task = .remove c) →
      s'.isRetained c = true ∨ .check c ∈ new ∨ .remove c ∈ new) :
    Tracks spared kept s₀ (new ++ tasks) s' where
  sound := hs'
  shrinks := h.shrinks.trans hsh
  gone c hc hc' := by
    cases hcs : s.columns.contains c with
    | false => exact h.gone c hc hcs
    | true => exact hgone c hcs hc'
  retained c hc := h.retained c (hsh.isRetained h.sound hs' hc)
  pending c hk hc := by
    have happend : ∀ task', task' ∈ new → task' ∈ new ++ tasks :=
      fun task' => List.mem_append_left tasks
    have hrest : ∀ task', task' ∈ tasks → task' ∈ new ++ tasks :=
      fun task' => List.mem_append_right new
    have hlooked := fun hr => (hpending c hc hr).imp_right (Or.imp (happend _) (happend _))
    -- the task itself was to look at the column, or one that is left is
    rcases h.pending c hk (hsh.contains hc) with hr | hr | hr
    · exact hlooked (.inl hr)
    · rcases List.mem_cons.mp hr with heq | hr
      · exact hlooked (.inr (.inl heq.symm))
      · exact .inr (.inl (hrest _ hr))
    · rcases List.mem_cons.mp hr with heq | hr
      · exact hlooked (.inr (.inr heq.symm))
      · exact .inr (.inr (hrest _ hr))
  justified task' ht := by
    rcases List.mem_append.mp ht with ht | ht
    · exact (hnew task' ht).frame h.shrinks.frame.symm
    · exact h.justified task' (List.mem_cons_of_mem _ ht)

/-- A task that keeps the shape and that is about no single orphan is worked off. -/
theorem Tracks.reshape (h : Tracks spared kept s₀ (task :: tasks) s) (hshape : SameShape s s')
    (hsh : Shrinks s s') (hnew : ∀ task' ∈ new, Justified spared kept s task')
    (htask : ∀ c, task ≠ .check c ∧ task ≠ .remove c) :
    Tracks spared kept s₀ (new ++ tasks) s' := by
  refine h.advance (h.sound.of_sameShape hshape) hsh (fun c hc hc' => ?_) hnew fun c _ hr => ?_
  · rw [hshape.contains_column, hc] at hc'
    exact absurd hc' Bool.noConfusion
  · rcases hr with hr | hr | hr
    · exact .inl ((hshape.isRetained h.sound c).trans hr)
    · exact absurd hr (htask c).1
    · exact absurd hr (htask c).2

/-- Taking one mapping out of a live relationship asks to look at its child column. -/
theorem Tracks.unmap (h : Tracks spared kept s₀ (task :: tasks) s) (hl : s.isLive r = true)
    {p : Mapping → Bool} {m : Mapping} {i : Nat} (hi : (s.mappingsOf r).findIdx? p = some i)
    (hm : (s.mappingsOf r).find? p = some m)
    (hcheck : .check m.fk ∈ new) (hnew : ∀ task' ∈ new, task' = .check m.fk ∨ task' = task)
    (htask : ∀ c, task ≠ .check c ∧ task ≠ .remove c) :
    Tracks spared kept s₀ (new ++ tasks) (s.removeMappingAt r m i) := by
  have hun := unmaps_removeMappingAt r m i s
  have hs' := h.sound.of_unmaps hun
  have hmem := List.mem_of_find?_eq_some hm
  refine h.advance hs' hun.shrinks (fun c hc hc' => ?_) (fun task' ht => ?_) fun c _ hr => ?_
  · rw [hun.columns, hc] at hc'
    exact absurd hc' Bool.noConfusion
  · rcases hnew task' ht with rfl | rfl
    · exact h.retained _ ((h.sound.isRetained_iff _).mpr ⟨r, hl, m, hmem, rfl⟩)
    · exact (h.justified _ (List.mem_cons_self ..)).frame h.shrinks.frame
  · rcases hr with hr | hr | hr
    -- only the child column of the mapping that leaves can lose its last one
    · obtain ⟨r', hl', m', hm', hfk⟩ := (h.sound.isRetained_iff c).mp hr
      rcases mem_removeMappingAt hi hm hm' with ⟨-, rfl⟩ | hm''
      · exact .inr (.inl (hfk ▸ hcheck))
      · exact .inl ((hs'.isRetained_iff c).mpr
          ⟨r', (hun.sameFrame.isLive r').trans hl', m', hm'', hfk⟩)
    · exact absurd hr (htask c).1
    · exact absurd hr (htask c).2

/-- Cutting a column asks to look at the columns that live relationships mapped it to. -/
theorem Tracks.cut (h : Tracks spared kept s₀ (.remove c :: tasks) s)
    (hc : s.columns.contains c = true) :
    Tracks spared kept s₀ (Prune.afterCut s c ++ tasks) (s.cut c) := by
  have hs' := h.sound.cut hc
  have hout : ∀ c', (s.cut c).columns.contains c' = (!decide (c' = c) && s.columns.contains c') := by
    intro c'
    rw [h.sound.columns_cut hc, Roster.contains_erase]
  have hdep : ∀ f, f ∈ s.dependentsOf c → .check f ∈ Prune.afterCut s c := fun f hf =>
    List.mem_append_left _ (List.mem_map_of_mem hf)
  refine h.advance hs' (h.sound.shrinks_cut hc) (fun c' hin hgone => ?_) (fun task' ht => ?_)
    fun c' hin hr => ?_
  · rw [hout, hin, Bool.and_true, Bool.not_eq_false', decide_eq_true_eq] at hgone
    exact hgone ▸ h.justified _ (List.mem_cons_self ..)
  · rcases h.sound.mem_afterCut ht with ⟨f, rfl, hf⟩ | ⟨t, rfl⟩
    · exact h.retained f hf
    · trivial
  -- a mapping of another column leaves only together with its parent column
  · rw [hout, Bool.and_eq_true, Bool.not_eq_true', decide_eq_false_iff_not] at hin
    rcases hr with hr | hr | hr
    · obtain ⟨r, hl, m, hm, hfk⟩ := (h.sound.isRetained_iff c').mp hr
      by_cases hpk : m.pk = c
      · exact .inr (.inl (hdep c' ((h.sound.mem_dependentsOf c' c).mpr ⟨r, hl, m, hm, hpk, hfk⟩)))
      · have hm' := (h.sound.mem_mappingsOf_cut hc).mpr ⟨hm, hpk, fun heq => hin.1 (hfk ▸ heq)⟩
        exact .inl ((hs'.isRetained_iff c').mpr
          ⟨r, ((sameFrame_cut c s).isLive r).trans hl, m, hm', hfk⟩)
    · exact absurd hr (by simp)
    · exact absurd (Prune.remove.inj hr).symm hin.1

/-- Looking at a column asks to remove it if no live relationship maps it. -/
theorem Tracks.check (h : Tracks spared kept s₀ (.check c :: tasks) s) :
    Tracks spared kept s₀
      ((if s.columns.contains c && !s.isRetained c then [.remove c] else []) ++ tasks) s := by
  refine h.advance h.sound (.refl s) (fun c' hc hc' => ?_) (fun task' ht => ?_) fun c' hc hr => ?_
  · rw [hc] at hc'
    exact absurd hc' Bool.noConfusion
  · split at ht
    · obtain rfl := List.mem_singleton.mp ht
      exact .inr (h.justified _ (List.mem_cons_self ..))
    · simp at ht
  · cases hret : s.isRetained c' with
    | true => exact .inl rfl
    | false =>
        rcases hr with hr | hr | hr
        · rw [hret] at hr
          exact absurd hr Bool.noConfusion
        · obtain rfl := Prune.check.inj hr
          exact .inr (.inr (by simp [hc, hret]))
        · exact absurd hr (by simp)

/-- A column that is gone already leaves nothing to look at. -/
theorem Tracks.removed (h : Tracks spared kept s₀ (.remove c :: tasks) s)
    (hc : s.columns.contains c = false) : Tracks spared kept s₀ ([] ++ tasks) s := by
  refine h.advance h.sound (.refl s) (fun c' hin hgone => ?_) (by simp) fun c' hin hr => ?_
  · rw [hin] at hgone
    exact absurd hgone Bool.noConfusion
  · rcases hr with hr | hr | hr
    · exact .inl hr
    · exact absurd hr (by simp)
    · obtain rfl := Prune.remove.inj hr
      rw [hin] at hc
      exact absurd hc Bool.noConfusion

/-- Every task is worked off. -/
theorem Tracks.step (h : Tracks spared kept s₀ (task :: tasks) s) :
    Tracks spared kept s₀ ((task.step s).1 ++ tasks) (task.step s).2 := by
  obtain ⟨-, hsh⟩ := h.sound.prune_step task
  have hjust := (h.justified task (List.mem_cons_self ..)).frame h.shrinks.frame
  cases task with
  | check c => exact h.check
  | remove c =>
      cases hc : s.columns.contains c with
      | true => exact h.cut hc
      | false =>
          rw [h.sound.step_remove_of_not_contains hc]
          exact h.removed hc
  | number t => exact h.reshape (sameShape_number t s) hsh (by simp [Prune.step]) (by simp)
  | unmap r pk =>
      simp only [Prune.step]
      split
      · rename_i i m hi hm
        exact h.unmap hjust hi hm (List.mem_singleton.mpr rfl)
          (fun task' ht => .inl (List.mem_singleton.mp ht)) (by simp)
      · exact h.reshape (.refl s) (.refl s) (by simp) (by simp)
  | demote c =>
      refine h.reshape (sameShape_demote c s) hsh (fun task' ht => ?_) (by simp)
      simp only [Prune.step] at ht
      split at ht
      · split at ht
        · obtain ⟨r, hr, rfl⟩ := List.mem_map.mp ht
          exact (mem_liveExportsOf.mp hr).2
        · simp at ht
      · simp at ht
  | loosen r fk =>
      refine h.reshape (.refl s) (.refl s) (fun task' ht => ?_) (by simp)
      simp only [Prune.step] at ht
      split at ht
      · obtain rfl := List.mem_singleton.mp ht
        trivial
      · simp at ht
  | sweep r key =>
      simp only [Prune.step]
      split
      · rename_i i m hi hm
        refine h.unmap hjust hi hm (List.mem_cons_self ..) (fun task' ht => ?_) (by simp)
        rcases List.mem_cons.mp ht with ht | ht
        · exact .inl ht
        · exact .inr (List.mem_singleton.mp ht)
      · exact h.reshape (.refl s) (.refl s) (by simp) (by simp)

/-- The beginning of a run: the columns mapped in `s` are mapped in `s₀` or to be looked at. -/
theorem Sound.tracks (hs : s₀.Sound) (hretained : ∀ c, s₀.isRetained c = true → kept c)
    (hpending : ∀ c, kept c → s₀.isRetained c = true ∨ .check c ∈ tasks)
    (hjust : ∀ task ∈ tasks, Justified spared kept s₀ task) : Tracks spared kept s₀ tasks s₀ where
  sound := hs
  shrinks := .refl s₀
  gone c hc hc' := by
    rw [hc] at hc'
    exact absurd hc' Bool.noConfusion
  retained := hretained
  pending c hk _ := (hpending c hk).imp_right .inl
  justified := hjust

/-- At the end of a run every column is accounted for. -/
theorem Sound.accounts_prune (hs : s.Sound) (hw : WorksOff Prune.step tasks s s')
    (hjust : ∀ task ∈ tasks, Justified spared (fun c => s.isRetained c = true) s task) :
    Accounts spared s s' := by
  -- with nothing left to look at, every column that stays is mapped
  have h := hw.invariant_all (J := Tracks spared (fun c => s.isRetained c = true) s)
    (fun _ _ _ h => h.step) (hs.tracks (fun _ h => h) (fun _ h => .inl h) hjust)
  refine ⟨fun c => h.shrinks.contains, h.gone, h.retained, fun c hc hc' => ?_⟩
  simpa using h.pending c hc hc'

end Schema

end KeyedSchema
