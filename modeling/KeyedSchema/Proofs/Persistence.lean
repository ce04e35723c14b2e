import KeyedSchema.Proofs.Lagging

/-!
# Persistence — mappings of key columns stay

A live relationship keeps its mapping of a column as long as the column is in the key of its parent.
Removals and demotions take a mapping out only when its parent column leaves the key or the schema:
`Harmless` is what a task needs for that, and every task leads to harmless ones. Catching up drops
mappings of columns that were not in the key when it was read; the key of the table does not grow
meanwhile, so such a column is outside of it at the end as well.
-/

namespace KeyedSchema

namespace Schema

variable {s s' s'' : Schema} {t p ch : TableId} {c pk fk : ColumnId} {r : RelationshipId}

/-- Whether relationships that are live before and after keep the mappings whose parent columns are
in a key afterwards. -/
def Persists (s s' : Schema) : Prop :=
  ∀ r m, s.isLive r = true → s'.isLive r = true → m ∈ s.mappingsOf r → s'.isKey m.pk = true →
    m ∈ s'.mappingsOf r

theorem persists_of_subset (h : ∀ r, s.mappingsOf r ⊆ s'.mappingsOf r) : Persists s s' :=
  fun r _ _ _ hm _ => h r hm

theorem SameShape.persists (h : SameShape s s') : Persists s s' :=
  persists_of_subset fun r => (h.mappingsOf r).symm.subset

theorem Untouched.persists (h : Untouched s s') : Persists s s' := by
  rw [h.same]
  exact persists_of_subset fun _ => List.Subset.refl _

theorem Grows.persists (h : Grows s s') : Persists s s' := persists_of_subset h.mappingsOf

/-- What goes before may add mappings, and takes out no relationship. -/
theorem Persists.after (h : Persists s' s'') (hsub : ∀ r, s.mappingsOf r ⊆ s'.mappingsOf r)
    (hlive : ∀ r, s.isLive r = true → s'.isLive r = true) : Persists s s'' :=
  fun r m hl hl' hm hk => h r m (hlive r hl) hl' (hsub r hm) hk

theorem Persists.after_shape (h : Persists s' s'') (hshape : SameShape s s') : Persists s s'' :=
  h.after (fun r => (hshape.mappingsOf r).symm.subset) fun r hl => (hshape.isLive r).trans hl

/-- Events that are told afterwards change nothing. -/
theorem Persists.then_events (h : Persists s s') (ho : SameObjects s' s'') : Persists s s'' := by
  obtain ⟨held, raised, published, origins, rfl⟩ := ho.exists_eq
  exact h

theorem AmidEvents.persists {R : Schema → Schema → Prop} (h : AmidEvents R s s') (hs : s.Sound)
    (hR : ∀ s₁ s₂, SameObjects s s₁ → s₁.Sound → R s₁ s₂ → Persists s₁ s₂) : Persists s s' := by
  obtain ⟨s₁, s₂, h₁, h, h₂⟩ := h
  exact ((hR s₁ s₂ h₁ (hs.of_sameObjects h₁) h).after_shape h₁.sameShape).then_events h₂

/-! ## Removals and demotions -/

/-- Whether relationships and key columns may have gone, and mappings only with them. Unlike
`Persists` this can be chained. -/
structure Thins (s s' : Schema) : Prop where
  isLive : ∀ r, s'.isLive r = true → s.isLive r = true
  isKey : ∀ c, s'.isKey c = true → s.isKey c = true
  mappingsOf : ∀ r m, s'.isLive r = true → m ∈ s.mappingsOf r → s'.isKey m.pk = true →
    m ∈ s'.mappingsOf r

namespace Thins

@[refl] theorem refl (s : Schema) : Thins s s := ⟨fun _ h => h, fun _ h => h, fun _ _ _ h _ => h⟩

theorem trans (h : Thins s s') (h' : Thins s' s'') : Thins s s'' where
  isLive r hl := h.isLive r (h'.isLive r hl)
  isKey c hk := h.isKey c (h'.isKey c hk)
  mappingsOf r m hl hm hk :=
    h'.mappingsOf r m hl (h.mappingsOf r m (h'.isLive r hl) hm (h'.isKey m.pk hk)) hk

theorem persists (h : Thins s s') : Persists s s' := fun r m _ hl hm hk => h.mappingsOf r m hl hm hk

/-- A change that only takes key columns out. -/
theorem of_shrinks (h : Shrinks s s') (hm : ∀ r, s.mappingsOf r ⊆ s'.mappingsOf r) : Thins s s' :=
  ⟨fun r hl => (h.frame.isLive r).symm.trans hl, h.isKey, fun r _ _ h _ => hm r h⟩

end Thins

/-- Whether a task takes out no mapping of a key column: what it removes is not mapped by a live
relationship, and what it unmaps is not in the key. -/
def Harmless (s : Schema) : Prune → Prop
  | .remove c => s.isRetained c = false
  | .unmap _ pk => s.isKey pk = false
  | .sweep r key => ∀ m ∈ s.mappingsOf r, s.isKey m.pk = true → m.pk ∈ key
  | _ => True

section

variable {task : Prune} {tasks : List Prune}

/-- What leaves meanwhile makes no task harmful. -/
theorem Harmless.shrinks (h : Harmless s task) (hs : s.Sound) (hs' : s'.Sound) (hsh : Shrinks s s') :
    Harmless s' task := by
  cases task with
  | remove c => exact Bool.eq_false_iff.mpr fun hr =>
      Bool.eq_false_iff.mp h (hsh.isRetained hs hs' hr)
  | unmap r pk => exact Bool.eq_false_iff.mpr fun hk => Bool.eq_false_iff.mp h (hsh.isKey pk hk)
  | sweep r key => exact fun m hm hk => h m (hsh.mappingsOf r hm) (hsh.isKey m.pk hk)
  | _ => trivial

/-- Cutting a column that no live relationship maps takes out mappings of this column only. -/
theorem Sound.thins_cut (hs : s.Sound) (hc : s.columns.contains c = true)
    (hret : s.isRetained c = false) : Thins s (s.cut c) := by
  have hsh := hs.shrinks_cut hc
  refine ⟨fun r hl => (hsh.frame.isLive r).symm.trans hl, hsh.isKey, fun r m hl hm hk => ?_⟩
  rw [hs.isKey_cut hc, Bool.and_eq_true] at hk
  refine (hs.mem_mappingsOf_cut hc).mpr ⟨hm, by simpa using hk.1, fun hfk => ?_⟩
  rw [(hs.isRetained_iff c).mpr ⟨r, (hsh.frame.isLive r).symm.trans hl, m, hm, hfk⟩] at hret
  exact Bool.noConfusion hret

/-- Dropping a mapping whose parent column is not in the key. -/
theorem thins_removeMappingAt {p : Mapping → Bool} {m : Mapping} {i : Nat}
    (hi : (s.mappingsOf r).findIdx? p = some i) (hm : (s.mappingsOf r).find? p = some m)
    (hk : s.isKey m.pk = false) : Thins s (s.removeMappingAt r m i) := by
  have hun := unmaps_removeMappingAt r m i s
  refine ⟨fun r' hl => (hun.sameFrame.isLive r').symm.trans hl, hun.shrinks.isKey,
    fun r' m' _ hm' hk' => ?_⟩
  rcases mem_removeMappingAt hi hm hm' with ⟨-, rfl⟩ | hin
  · rw [hun.isKey, hk] at hk'
    exact absurd hk' Bool.noConfusion
  · exact hin

/-- A harmless task only thins a schema, and leads to harmless tasks. -/
theorem Sound.thins_step (hs : s.Sound) (h : Harmless s task) :
    Thins s (task.step s).2 ∧ ∀ next ∈ (task.step s).1, Harmless (task.step s).2 next := by
  obtain ⟨hs', hsh⟩ := hs.prune_step task
  cases task with
  -- a column is removed only if a look at the schema shows that nothing maps it
  | check c =>
      refine ⟨.refl s, fun next hnext => ?_⟩
      simp only [Prune.step] at hnext
      split at hnext
      · rename_i hcond
        obtain rfl := List.mem_singleton.mp hnext
        rw [Bool.and_eq_true, Bool.not_eq_true'] at hcond
        exact hcond.2
      · simp at hnext
  | remove c =>
      cases hc : s.columns.contains c with
      | false =>
          rw [hs.step_remove_of_not_contains hc]
          exact ⟨.refl s, by simp⟩
      | true =>
          refine ⟨hs.thins_cut hc h, fun next hnext => ?_⟩
          rcases hs.mem_afterCut hnext with ⟨f, rfl, -⟩ | ⟨t, rfl⟩ <;> trivial
  | number t =>
      have hshape := sameShape_number t s
      exact ⟨.of_shrinks hsh fun r => (hshape.mappingsOf r).symm.subset, by simp [Prune.step]⟩
  | unmap r pk =>
      simp only [Prune.step]
      split
      · rename_i i m hi hm
        have hpk : m.pk = pk := by simpa using List.find?_some hm
        refine ⟨thins_removeMappingAt hi hm (hpk ▸ h), fun next hnext => ?_⟩
        obtain rfl := List.mem_singleton.mp hnext
        trivial
      · exact ⟨.refl s, by simp⟩
  | demote c =>
      simp only [Prune.step]
      split
      · rename_i t k ht _
        have hc := contains_of_owner? ht
        have hre := reranks_changeRank c (some k) none s
        have hout : (s.changeRank c (some k) none).isKey c = false := by
          unfold isKey
          rw [rank?_changeRank c _ _ s hc, if_pos rfl]
          rfl
        have hthins : Thins s (s.changeRank c (some k) none) :=
          .of_shrinks (shrinks_changeRank hc _) fun r => (hre.mappingsOf r).symm.subset
        split
        · have hre' := reranks_normalizeKey t none (s.changeRank c (some k) none)
          have hs₁ := hre.sound hs
          refine ⟨hthins.trans (.of_shrinks (hs₁.shrinks_normalizeKey t none)
            fun r => (hre'.mappingsOf r).symm.subset), fun next hnext => ?_⟩
          obtain ⟨r, -, rfl⟩ := List.mem_map.mp hnext
          exact (hs₁.isKey_normalizeKey t none c).trans hout
        · exact ⟨hthins, by simp⟩
      · exact ⟨.refl s, by simp⟩
  | loosen r fk =>
      refine ⟨.refl s, fun next hnext => ?_⟩
      simp only [Prune.step] at hnext
      split at hnext
      · obtain rfl := List.mem_singleton.mp hnext
        trivial
      · simp at hnext
  | sweep r key =>
      simp only [Prune.step]
      split
      · rename_i i m hi hm
        have hstray : m.pk ∉ key := by simpa using List.find?_some hm
        have hk : s.isKey m.pk = false := Bool.eq_false_iff.mpr fun hk =>
          hstray (h m (List.mem_of_find?_eq_some hm) hk)
        have hun := unmaps_removeMappingAt r m i s
        refine ⟨thins_removeMappingAt hi hm hk, fun next hnext => ?_⟩
        rcases List.mem_cons.mp hnext with rfl | hnext
        · trivial
        · obtain rfl := List.mem_singleton.mp hnext
          exact h.shrinks hs (hs.of_unmaps hun) hun.shrinks
      · exact ⟨.refl s, by simp⟩

/-- How far a run of harmless tasks has come. -/
structure Thinning (s₀ : Schema) (tasks : List Prune) (s : Schema) : Prop where
  sound : s.Sound
  thins : Thins s₀ s
  harmless : ∀ task ∈ tasks, Harmless s task

/-- A run of harmless tasks only thins a schema. -/
theorem Sound.thins_prune (hs : s.Sound) (hw : WorksOff Prune.step tasks s s')
    (h : ∀ task ∈ tasks, Harmless s task) : Thins s s' := by
  refine (hw.invariant_all (J := Thinning s) (fun task tasks s₁ h₁ => ?_) ⟨hs, .refl s, h⟩).thins
  have htask := h₁.harmless task (List.mem_cons_self ..)
  obtain ⟨hs', hsh⟩ := h₁.sound.prune_step task
  obtain ⟨hthins, hnext⟩ := h₁.sound.thins_step htask
  refine ⟨hs', h₁.thins.trans hthins, fun task' ht => ?_⟩
  rcases List.mem_append.mp ht with ht | ht
  · exact hnext task' ht
  · exact (h₁.harmless task' (List.mem_cons_of_mem _ ht)).shrinks h₁.sound hs' hsh

end

/-! ## Relationships and tables that go -/

/-- Unlinking a relationship takes its own mappings out and no others. -/
theorem Unlinked.thins (h : Unlinked r s s') : Thins s s' where
  isLive r' hl := by
    rw [h.isLive, Bool.and_eq_true] at hl
    exact hl.2
  isKey c hk := (isKey_of_columns h.columns c).symm.trans hk
  mappingsOf r' m hl hm _ := by
    rw [h.isLive, Bool.and_eq_true, decide_eq_true_eq] at hl
    rwa [h.mappingsOf, if_neg hl.1]

theorem thins_dropRelationship (r : RelationshipId) (s : Schema) :
    Thins s (s.dropRelationship r) where
  isLive r' hl := by
    rw [isLive_dropRelationship, Bool.and_eq_true] at hl
    exact hl.2
  isKey _ hk := hk
  mappingsOf r' m hl hm _ := by
    rw [isLive_dropRelationship, Bool.and_eq_true, decide_eq_true_eq] at hl
    rwa [mappingsOf_dropRelationship, if_neg hl.1]

theorem coversDismissal_thins : CoversDismissal Thins where
  refl := .refl
  trans := .trans
  unlink hs r := (hs.unlinked r).thins
  check hs hw := by
    refine hs.thins_prune hw fun task ht => ?_
    obtain ⟨fk, -, rfl⟩ := List.mem_map.mp ht
    trivial
  drop _ := thins_dropRelationship _ _

theorem thins_eraseTable (t : TableId) (i : Nat) (s : Schema) : Thins s (s.eraseTable t i) where
  isLive _ hl := isLive_of_eraseTable hl
  isKey c hk := by
    obtain ⟨k, hk⟩ := isKey_iff.mp hk
    unfold rank? at hk
    rw [get?_column_eraseTable] at hk
    split at hk
    · simp at hk
    · exact isKey_iff.mpr ⟨k, hk⟩
  mappingsOf r m _ hm _ := by rwa [mappingsOf_eraseTable]

theorem Removes.persists (h : Removes t s s') (hs : s.Sound) : Persists s s' := by
  obtain ⟨-, s₁, i, hd, ho⟩ := h
  have hdismissed := coversDismissal_thins.chain hs hd
  exact (hdismissed.trans (thins_eraseTable t i s₁)).persists.then_events ho

/-! ## Catching up -/

section

variable {key : List ColumnId} {rs : List RelationshipId} {s₀ : Schema}

/-- How far catching up with the table `t` has come, from the schema `s₀` on, in which its key was
read as `key`. -/
structure Unmapping (t : TableId) (key : List ColumnId) (s₀ s : Schema) : Prop where
  sound : s.Sound
  acyclic : s.Acyclic
  frame : SameFrame s₀ s
  lastColumn : s₀.lastColumn ≤ s.lastColumn
  owner? : ∀ x, s₀.columns.contains x = true → s.columns.contains x = true →
    s.owner? x = s₀.owner? x
  /-- The key has not grown. -/
  isKey : ∀ x, s.owner? x = some t → s.isKey x = true → x ∈ key
  /-- A live mapping that has left has a parent column that is gone, or was outside of the key. -/
  lost : ∀ r m, s₀.isLive r = true → m ∈ s₀.mappingsOf r → m ∉ s.mappingsOf r →
    s.columns.contains m.pk = false ∨ (s₀.owner? m.pk = some t ∧ m.pk ∉ key)

theorem Sound.unmapping (hs : s₀.Sound) (ha : s₀.Acyclic) :
    Unmapping t (s₀.primaryKey t) s₀ s₀ where
  sound := hs
  acyclic := ha
  frame := .refl s₀
  lastColumn := Nat.le_refl _
  owner? _ _ _ := rfl
  isKey x ho hk := mem_primaryKey.mpr ⟨(hs.listed t x).mpr ho, hk⟩
  lost _ _ _ hm hout := absurd hm hout

namespace Unmapping

/-- A relationship that could be reconciled in the beginning, with the columns that are left. -/
theorem reconcilable {xs : List ColumnId} (h : Unmapping t key s₀ s) (hr : Reconcilable key t r s₀)
    (hsub : xs ⊆ key) (hxs : ∀ x ∈ xs, s.columns.contains x = true) : Reconcilable xs t r s := by
  obtain ⟨ch, hch⟩ := hr.child
  refine ⟨(h.frame.isLive r).trans hr.live, (h.frame.parent? r).trans hr.parent,
    ⟨ch, (h.frame.child? r).trans hch⟩, fun x hx => ?_⟩
  have ho := hr.owner x (hsub hx)
  exact (h.owner? x (contains_of_owner? ho) (hxs x hx)).trans ho

/-- Dropping the strays of a relationship. -/
theorem sweep (h : Unmapping t key s₀ s) (hs₀ : s₀.Sound) (hr : Reconcilable key t r s₀)
    (hw : WorksOff Prune.step [.sweep r key] s s') : Unmapping t key s₀ s' := by
  have hl := (h.frame.isLive r).trans hr.live
  obtain ⟨hs', hsh⟩ := h.sound.prune hw
  refine ⟨hs', h.acyclic.inherits hsh.frame.inherits, h.frame.trans hsh.frame,
    hsh.lastColumn ▸ h.lastColumn, fun x hc₀ hc => ?_, fun x ho hk => ?_, fun r' m hl' hm hout => ?_⟩
  · exact (hsh.owner? x hc).trans (h.owner? x hc₀ (hsh.contains hc))
  · exact h.isKey x ((hsh.owner? x (contains_of_owner? ho)).symm.trans ho) (hsh.isKey x hk)
  -- what leaves now is a stray, or goes with its parent column
  · by_cases hin : m ∈ s.mappingsOf r'
    · refine (h.sound.unmapped_of_sweep hl hw ((h.frame.isLive r').trans hl') hin hout).symm.imp_right
        fun ⟨heq, hstray⟩ => ⟨?_, hstray⟩
      rw [heq] at hm
      exact hs₀.pk_owner hm hr.parent
    · refine (h.lost r' m hl' hm hin).imp_left fun hgone => Bool.eq_false_iff.mpr fun hc => ?_
      rw [hsh.contains hc] at hgone
      exact Bool.noConfusion hgone

/-- Changes that take nothing out and leave the key of the table as it is. -/
theorem grows (h : Unmapping t key s₀ s) (hs₀ : s₀.Sound) (hs' : s'.Sound) (hg : Grows s s')
    (hkey : ∀ x, s'.owner? x = some t → s'.isKey x = true → s.owner? x = some t ∧ s.isKey x = true) :
    Unmapping t key s₀ s' := by
  -- a column that is gone does not come back
  have hback : ∀ x, s₀.columns.contains x = true → s'.columns.contains x = true →
      s.columns.contains x = true := by
    intro x hc₀ hc
    have := hs₀.column_fresh x hc₀
    have := h.lastColumn
    exact (hg.fresh x hc).resolve_right (by omega)
  refine ⟨hs', h.acyclic.inherits hg.frame.inherits, h.frame.trans hg.frame,
    Nat.le_trans h.lastColumn hg.lastColumn, fun x hc₀ hc => ?_, fun x ho hk => ?_,
    fun r m hl hm hout => ?_⟩
  · have hc := hback x hc₀ hc
    exact (hg.owner? hc).trans (h.owner? x hc₀ hc)
  · obtain ⟨ho, hk⟩ := hkey x ho hk
    exact h.isKey x ho hk
  · refine (h.lost r m hl hm fun hin => hout (hg.mappingsOf r hin)).imp_left fun hgone =>
      Bool.eq_false_iff.mpr fun hc => ?_
    rw [hback m.pk (hs₀.pk_stored hm) hc] at hgone
    exact Bool.noConfusion hgone

/-- Mapping columns of the key. -/
theorem map {xs : List ColumnId} {depth : Nat} (h : Unmapping t key s₀ s) (hs₀ : s₀.Sound)
    (hr : Reconcilable xs t r s) (hw : WorksOff Grow.step (xs.map (.map depth r)) s s') :
    Unmapping t key s₀ s' := by
  obtain ⟨hs', hg⟩ := h.sound.grow (fun task ht => by
    obtain ⟨x, hx, rfl⟩ := List.mem_map.mp ht
    exact hr.ready depth hx) hw
  refine h.grows hs₀ hs' hg fun x ho hk => key_of_grow h.sound h.acyclic (fun task ht => ?_) hw ho hk
  obtain ⟨x, hx, rfl⟩ := List.mem_map.mp ht
  exact ⟨hr.live, t, hr.parent, hr.owner x hx, .refl⟩

theorem reconciles (h : Unmapping t key s₀ s) (hs₀ : s₀.Sound) (hr : Reconcilable key t r s₀)
    (hrec : Reconciles key r s s') : Unmapping t key s₀ s' := by
  obtain ⟨s₁, s₂, hw₁, hkey, hw₂, rfl⟩ := hrec
  have h₁ := h.sweep hs₀ hr hw₁
  have h₂ := h₁.map hs₀ (h₁.reconcilable hr (List.Subset.refl _) hkey) hw₂
  have hre := reranks_syncMappingOrder r s₂
  exact h₂.grows hs₀ (hre.sound h₂.sound) (grows_syncMappingOrder r s₂) fun x ho hk =>
    ⟨(hre.owner? x).symm.trans ho, (isKey_syncMappingOrder r s₂ x).symm.trans hk⟩

theorem stalls (h : Unmapping t key s₀ s) (hs₀ : s₀.Sound) (hr : Reconcilable key t r s₀)
    (hstall : Stalls key r s s') : Unmapping t key s₀ s' := by
  obtain ⟨s₁, done, x, rest, hw₁, rfl, hdone, -, hw₂⟩ := hstall.halfway
  have h₁ := h.sweep hs₀ hr hw₁
  exact h₁.map hs₀ (h₁.reconcilable hr (List.subset_append_left _ _) hdone) hw₂

theorem chain (h : Unmapping t key s₀ s) (hs₀ : s₀.Sound)
    (hrs : ∀ r ∈ rs, Reconcilable key t r s₀) (hc : Chain (Reconciles key) rs s s') :
    Unmapping t key s₀ s' :=
  hc.invariant (fun r hr _ _ h₁ hrec => h₁.reconciles hs₀ (hrs r hr) hrec) h

theorem stallsAny (h : Unmapping t key s₀ s) (hs₀ : s₀.Sound)
    (hrs : ∀ r ∈ rs, Reconcilable key t r s₀) (hc : StallsAny key rs s s') :
    Unmapping t key s₀ s' := by
  obtain ⟨done, r, rest, s₁, rfl, hchain, hstalls⟩ := hc.cases
  have h₁ := h.chain hs₀ (fun r' hr' => hrs r' (List.mem_append_left _ hr')) hchain
  exact h₁.stalls hs₀ (hrs r (by simp)) hstalls

/-- A mapping that has left has a parent column that is in no key any more. -/
theorem persists (h : Unmapping t key s₀ s) : Persists s₀ s := by
  intro r m hl _ hm hk
  by_contra hout
  rcases h.lost r m hl hm hout with hgone | ⟨ho, hx⟩
  · rw [contains_of_isKey hk] at hgone
    exact Bool.noConfusion hgone
  · have hc := contains_of_isKey hk
    exact hx (h.isKey m.pk ((h.owner? m.pk (contains_of_owner? ho) hc).trans ho) hk)

end Unmapping

end

theorem Acyclic.catchUpStart (ha : s.Acyclic) (t : TableId) (name : String) :
    (s.catchUpStart t name).Acyclic :=
  ha.inherits <| ((inherits_settled t s).trans (SameObjects.signal _ _).sameFrame.inherits).trans
    (reranks_normalizeKey t none _).sameFrame.inherits

theorem Exits.persists (h : Exits t s s') (hs : s.Sound) (ha : s.Acyclic) : Persists s s' := by
  cases h with
  | absent _ => exact (SameObjects.forget t s).sameShape.persists
  | plain _ _ => exact (sameShape_settled t s).persists
  | @caughtUp tbl s₁ _ _ _ hchain =>
      have hshape := sameShape_catchUpStart t tbl.name s
      have hs₀ := hs.of_sameShape hshape
      have h₁ := (hs₀.unmapping (ha.catchUpStart t tbl.name)).chain hs₀
        (fun r hr => hs₀.reconcilable hr) hchain
      exact (h₁.persists.after_shape hshape).then_events (SameObjects.signal _ s₁)

theorem Halts.persists (h : Halts t s s') (hs : s.Sound) (ha : s.Acyclic) : Persists s s' := by
  obtain ⟨name, s₁, hstalls, rfl⟩ := h.stalls
  have hshape := sameShape_catchUpStart t name s
  have hs₀ := hs.of_sameShape hshape
  have h₁ := (hs₀.unmapping (ha.catchUpStart t name)).stallsAny hs₀
    (fun r hr => hs₀.reconcilable hr) hstalls
  exact (h₁.persists.after_shape hshape).then_events (SameObjects.signal _ s₁)

theorem Switches.persists (h : Switches s s') : Persists s s' := by
  cases h with
  | untouched h => exact h.persists
  | told h => exact h.sameShape.persists
  | suspended t => exact (sameShape_suspended t s).persists
  | magic t on => exact (sameShape_setMagic t on s).persists

theorem Closes.persists (h : Closes s s') (hs : s.Sound) (ha : s.Acyclic) : Persists s s' := by
  cases h with
  | switches h => exact h.persists
  | exits h => exact h.persists hs ha
  | halts h => exact h.persists hs ha

/-! ## Edits -/

theorem Inserts.persists {i : Nat} {col : Column} (h : Inserts t i col s s') (hs : s.Sound) :
    Persists s s' := by
  have hs₁ := hs.placeColumn h.table h.index col
  have hg : Grows (s.placeColumn t i col) s' := by
    refine (hs₁.grow (fun task ht => ?_) h.worksOff).2
    split at ht
    · obtain rfl := List.mem_singleton.mp ht
      simp [contains_placeColumn]
    · simp at ht
  exact ((hs.grows_placeColumn t i col).trans hg).persists

theorem Places.persists {k : Nat} (h : Places c k s s') (hs : s.Sound)
    (hc : s.columns.contains c = true) : Persists s s' := by
  cases h with
  | joins _ hw =>
      have hre := reranks_changeRank c none (some k) s
      refine ((grows_changeRank hc none k).trans ((hre.sound hs).grow (fun task ht => ?_) hw).2).persists
      obtain rfl := List.mem_singleton.mp ht
      exact (hre.sameShape.contains_column c).trans hc
  | @moves old t _ _ =>
      have hre := reranks_changeRank c (some old) (some k) s
      split
      · exact (hre.trans (reranks_normalizeKey t (some c) _)).sameShape.persists
      · exact hre.sameShape.persists
  | stays _ => exact (SameShape.refl s).persists

theorem Moves.persists (h : Moves s s') : Persists s s' := by
  obtain ⟨s₁, h₁, rfl | ⟨t, rfl⟩⟩ := h
  · exact h₁.shape.persists
  · exact (h₁.shape.trans (reranks_normalizeKey t none s₁).sameShape).persists

theorem Maps.persists (h : Maps r pk fk s s') (hs : s.Sound) : Persists s s' := by
  obtain ⟨p, ch, hp, hch, hpk, hfk⟩ := h.ends
  obtain ⟨s₁, hw, hs'⟩ := h.worksOff
  have happ := hs.appendMapping (m := ⟨pk, fk⟩) hp hch hpk hfk h.unmapped
  have hg : Grows s s₁ := (grows_appendMapping (contains_of_parent? hp) _).trans
    (happ.grow (ready_joining (contains_of_owner? hfk)) hw).2
  rcases hs' with rfl | ⟨rfl, -⟩
  · exact (hg.trans (grows_syncMappingOrder r s₁)).persists
  · exact hg.persists

theorem Marks.persists {new : Bool} (h : Marks r new s s') (hs : s.Sound) : Persists s s' := by
  have hshape := fun old => sameShape_markIdentifying r old new s
  cases h with
  | plain _ => exact (hshape _).persists
  | tightens hnew _ _ hw =>
      subst hnew
      have hs₁ := hs.of_sameShape (hshape false)
      exact (hs₁.grow (hs.ready_marked r _ _) hw).2.persists.after_shape (hshape false)
  | loosens hnew _ _ hw =>
      subst hnew
      have hs₁ := hs.of_sameShape (hshape true)
      refine (hs₁.thins_prune hw fun task ht => ?_).persists.after_shape (hshape true)
      obtain ⟨fk, -, rfl⟩ := List.mem_map.mp ht
      trivial

/-- Connecting a relationship and mapping its parent's key takes nothing out. -/
theorem Wires.mappingsOf_subset {auto : Bool} (h : Wires r p ch auto s s') (r' : RelationshipId) :
    s.mappingsOf r' ⊆ s'.mappingsOf r' := by
  obtain ⟨s₁, hc, hw⟩ := h.connected
  rw [← hc.mappingsOf r']
  exact (hc.sound.grow hc.ready_wiring hw).2.mappingsOf r'

theorem Wires.isLive_of {auto : Bool} (h : Wires r p ch auto s s') {r' : RelationshipId}
    (hl : s.isLive r' = true) : s'.isLive r' = true := by
  obtain ⟨s₁, hc, hw⟩ := h.connected
  rw [(sameFrame_of_grow hw).isLive, hc.isLive, hl, Bool.or_true]

/-- What happens once a relationship is connected and its parent's key is mapped. -/
theorem Persists.after_wires {auto : Bool} (h : Persists (s.wired r p ch auto) s')
    (hw : Wires r p ch auto (s.suspended ch) (s.wired r p ch auto)) : Persists s s' :=
  (h.after hw.mappingsOf_subset fun _ hl => hw.isLive_of hl).after_shape (sameShape_suspended ch s)

theorem Attaches.persists {auto : Bool} (h : Attaches r p ch auto s s') (hs : s.Sound)
    (ha : s.Acyclic) (hatt : Attachable r p ch s) : Persists s s' := by
  rcases h.settles with ⟨-, rfl⟩ | ⟨-, hexits⟩
  · exact (SameShape.refl _).persists.after_wires h.wires
  · exact (hexits.persists h.wires.sound (ha.wired hs hatt h.wires)).after_wires h.wires

theorem AttachHalts.persists {auto : Bool} (h : AttachHalts r p ch auto s s') (hs : s.Sound)
    (ha : s.Acyclic) (hatt : Attachable r p ch s) : Persists s s' :=
  (h.halts.persists h.wires.sound (ha.wired hs hatt h.wires)).after_wires h.wires

theorem Reregisters.persists (h : Reregisters s s') : Persists s s' :=
  persists_of_subset fun r => (h.mappingsOf r) ▸ List.Subset.refl _

/-- A change of one relationship that keeps its mappings. -/
theorem persists_changeRelationship {f : Relationship → Relationship}
    (h : SameObjects (s.changeRelationship r f) s') (hf : ∀ rel, (f rel).mappings = rel.mappings) :
    Persists s s' := by
  refine persists_of_subset fun r' => ?_
  have hm : s'.mappingsOf r' = (s.changeRelationship r f).mappingsOf r' := by
    unfold Schema.mappingsOf
    rw [h.relationships]
  rw [hm, changeRelationship]
  exact (mappingsOf_changeRelationship r r' s hf).symm ▸ List.Subset.refl _

/-- A relationship that is added had no mappings before. -/
theorem Sound.persists_storeRelationship (hs : s.Sound) (rel : Relationship) :
    Persists s (s.storeRelationship rel) := by
  refine persists_of_subset fun r' m hm => ?_
  have hne : r' ≠ ⟨s.lastRelationship + 1⟩ := by
    rintro rfl
    obtain ⟨rel', hrel', -⟩ := mem_mappingsOf.mp hm
    exact Nat.not_succ_le_self _ (hs.relationship_fresh _ (Roster.contains_of_get? hrel'))
  unfold Schema.mappingsOf at hm ⊢
  rwa [get?_storeRelationship, if_neg hne]

end Schema

namespace Op

open Schema

variable {s s' : Schema} {op : Op}

/-- What an operation does leaves the live mappings of key columns in place, unless it is asked to
take a mapping out. -/
theorem Does.persists (h : op.Does s s') (hs : s.Sound) (ha : s.Acyclic)
    (hop : ∀ r pk, op ≠ .removeMapping r pk) : Persists s s' := by
  cases op
  case addTable tbl =>
    obtain rfl := h
    exact persists_of_subset fun r => mappingsOf_appendTable tbl s r ▸ List.Subset.refl _
  case removeTable t => exact AmidEvents.persists h hs fun _ _ _ hs₁ h => h.persists hs₁
  case addColumn t col =>
    obtain ⟨i, h⟩ := h
    exact h.persists hs fun _ _ _ hs₁ h => h.persists hs₁
  case insertColumn t i col => exact AmidEvents.persists h hs fun _ _ _ hs₁ h => h.persists hs₁
  case removeColumn c =>
    obtain ⟨-, hret, h⟩ := h
    refine h.persists hs fun s₁ s₂ ho hs₁ hw => (hs₁.thins_prune hw fun task ht => ?_).persists
    obtain rfl := List.mem_singleton.mp ht
    exact (ho.sameShape.isRetained hs c).trans hret
  case moveColumn c i => exact Moves.persists h
  case setPrimaryKeySeq c rank =>
    cases rank with
    | none =>
        refine h.2.persists hs fun _ _ _ hs₁ hw => (hs₁.thins_prune hw fun task ht => ?_).persists
        obtain rfl := List.mem_singleton.mp ht
        trivial
    | some k => exact h.2.persists hs fun s₁ _ ho hs₁ h' => h'.persists hs₁ (ho.columns ▸ h.1)
  case normalizePrimaryKey t =>
    obtain rfl := h
    exact (reranks_normalizeKey t none s).sameShape.persists
  case createRelationship rel =>
    obtain ⟨-, -, rfl⟩ := h
    exact hs.persists_storeRelationship _
  case setParent r t =>
    obtain ⟨-, -, -, rfl⟩ := h
    exact persists_changeRelationship (SameObjects.raise _ _) fun _ => rfl
  case setChild r t =>
    obtain ⟨-, -, -, rfl⟩ := h
    exact persists_changeRelationship (SameObjects.raise _ _) fun _ => rfl
  case addExportedKey t r =>
    obtain ⟨-, ⟨-, rfl⟩ | ⟨-, -, rfl⟩⟩ := h
    · exact (SameShape.refl _).persists
    · exact (reregisters_registerExported t r s).persists
  case addImportedKey t r =>
    obtain ⟨-, ⟨-, rfl⟩ | ⟨-, -, rfl⟩⟩ := h
    · exact (SameShape.refl _).persists
    · exact (reregisters_registerImported t r s).persists
  case removeExportedKey t r =>
    obtain ⟨-, h⟩ | ⟨-, rfl⟩ := h
    · exact h.persists hs fun _ _ _ hs₁ h => (coversDismissal_thins.detaches hs₁ h).persists
    · exact (reregisters_deregisterExported r s).persists
  case removeImportedKey t r =>
    obtain ⟨-, h⟩ | ⟨-, rfl⟩ := h
    · exact h.persists hs fun _ _ _ hs₁ h => (coversDismissal_thins.detaches hs₁ h).persists
    · exact (reregisters_deregisterImported r s).persists
  case removeRelationship r =>
    obtain ⟨-, h⟩ | ⟨-, rfl⟩ := h
    · exact h.persists hs fun _ _ _ hs₁ h => (coversDismissal_thins.detaches hs₁ h).persists
    · exact (coversDismissal_thins.discard hs r).persists
  case addMapping r pk fk => exact AmidEvents.persists h hs fun _ _ _ hs₁ h => h.persists hs₁
  case removeMapping r pk => exact absurd rfl (hop r pk)
  case mapPrimaryKeyColumn r pk =>
    obtain ⟨-, -, hready, -, h⟩ := h
    refine h.persists hs fun s₁ _ ho hs₁ hw => (hs₁.grow (fun task ht => ?_) hw).2.persists
    obtain rfl := List.mem_singleton.mp ht
    exact ho.grows.ready hready
  case attachRelationship r p ch auto =>
    exact h.attaches.persists hs fun _ _ ho hs₁ h =>
      h.2.persists hs₁ (ha.inherits ho.sameFrame.inherits) h.1
  case setIdentifying r new => exact h.2.persists hs fun _ _ _ hs₁ h => h.persists hs₁
  case setSecondaryChangeMode t on => exact h.closes.persists hs ha
  case setMagicEnabled t on =>
    obtain rfl := h
    exact (sameShape_setMagic t on s).persists
  all_goals exact (SameSkeleton.shape h).persists

theorem Halts.persists (h : op.Halts s s') (hs : s.Sound) (ha : s.Acyclic) : Persists s s' := by
  obtain ⟨r, p, ch, auto, h⟩ | ⟨t, h⟩ := h.cases
  · exact h.persists hs fun _ _ ho hs₁ h => h.2.persists hs₁ (ha.inherits ho.sameFrame.inherits) h.1
  · exact h.persists hs ha

/-- Whatever an operation ends in, live mappings of key columns stay. -/
theorem persists_perform (hs : s.Sound) (ha : s.Acyclic) (hop : ∀ r pk, op ≠ .removeMapping r pk) :
    Persists s (op.perform s).2 :=
  perform_preserves hs op (fun _ h => h.persists hs ha hop) (fun _ h => h.persists hs ha)
    fun _ h => h.persists

end Op

namespace Edit

open Schema

variable {s : Schema}

theorem persists_enter (s : Schema) (scope : Scope) : Persists s ((enter scope).perform s).2 :=
  (switches_enter s scope).persists

/-- Closing a scope keeps live mappings of key columns, also when catching up stops halfway. -/
theorem persists_leave (hs : s.Sound) (ha : s.Acyclic) (opened : OpenScope) :
    Persists s ((leave opened).perform s).2 :=
  (closes_leave hs opened).persists hs ha

end Edit

namespace Moment

open Schema

/-- After every move that is not asked to take a mapping out, each relationship that was live and
still is keeps its mappings of the columns that are in the key of its parent. -/
theorem mapping_persists {config : Config} {moves : List Move} {move : Move} {m m' : Moment}
    (hm : m = (start config).run moves) (hm' : m' = m.after move)
    (hmove : ∀ r pk, move ≠ .edit (.removeMapping r pk)) {r : RelationshipId} {pk fk : ColumnId}
    (hlive : m.schema.isLive r = true) (hlive' : m'.schema.isLive r = true)
    (hmapped : ⟨pk, fk⟩ ∈ m.schema.mappingsOf r)
    (hkey : ∃ p, m'.schema.parent? r = some p ∧ pk ∈ m'.schema.primaryKey p) :
    ⟨pk, fk⟩ ∈ m'.schema.mappingsOf r := by
  have hreach : m.schema.Reachable := ⟨config, moves, congrArg schema hm.symm⟩
  have hs := hreach.sound
  have ha := hreach.acyclic
  have hpersists : Persists m.schema m'.schema := by
    rw [hm']
    cases move with
    | edit op => exact Op.persists_perform hs ha fun r pk h => hmove r pk (congrArg Move.edit h)
    | enter scope =>
        have h := Edit.persists_enter m.schema scope
        unfold after
        dsimp only
        split <;> rename_i hx <;> rwa [hx] at h
    | leave =>
        unfold after
        dsimp only
        split
        · exact (SameShape.refl _).persists
        · exact Edit.persists_leave hs ha _
  obtain ⟨p, -, hkey⟩ := hkey
  exact hpersists r ⟨pk, fk⟩ hlive hlive' hmapped (mem_primaryKey.mp hkey).2

/-- Table `b` maps the two key columns of table `a`; the first one leaves the key of `a` while that
is in secondary-change mode. -/
def withdrawingMoves : List Move :=
  [.edit (.addTable { name := "a" }),
    .edit (.addTable { name := "b" }),
    .edit (.addColumn ⟨1⟩ { name := "x", rank := some 0 }),
    .edit (.addColumn ⟨1⟩ { name := "y", rank := some 1 }),
    .edit (.createRelationship { name := "ab" }),
    .edit (.attachRelationship ⟨1⟩ ⟨1⟩ ⟨2⟩ true),
    .edit (.setSecondaryChangeMode ⟨1⟩ true),
    .edit (.setPrimaryKeySeq ⟨1⟩ none)]

/-- Leaving the mode drops the mapping of the first column and keeps the one of the second. -/
theorem mapping_persists_withdrawing : ∃ m m' : Moment,
    m = (start {}).run withdrawingMoves ∧
    m' = m.after (.edit (.setSecondaryChangeMode ⟨1⟩ false)) ∧
    ⟨⟨1⟩, ⟨3⟩⟩ ∈ m.schema.mappingsOf ⟨1⟩ ∧ ⟨⟨1⟩, ⟨3⟩⟩ ∉ m'.schema.mappingsOf ⟨1⟩ ∧
    ⟨⟨2⟩, ⟨4⟩⟩ ∈ m.schema.mappingsOf ⟨1⟩ ∧ ⟨⟨2⟩, ⟨4⟩⟩ ∈ m'.schema.mappingsOf ⟨1⟩ :=
  ⟨_, _, rfl, rfl, by decide, by decide, by decide,
    mapping_persists rfl rfl (by simp) (by decide) (by decide) (by decide) ⟨⟨1⟩, by decide, by decide⟩⟩

end Moment

end KeyedSchema
