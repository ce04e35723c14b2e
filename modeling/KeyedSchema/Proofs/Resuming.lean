import KeyedSchema.Proofs.Attaching
import KeyedSchema.Proofs.Backlog
import KeyedSchema.Proofs.Placement

/-!
# Resuming — a table that leaves secondary-change mode is in step again

While a table is in the mode its key may come to have gaps and ties, and what it exports may miss
key columns, map former ones and be out of order. Leaving the mode first publishes what was held
back and then catches up: the key is numbered, and the relationships are brought in line one by one.

Each relationship costs the ones before it nothing. Dropping its strays takes a mapping of another
relationship only together with a column of the key, and then catching up is refused; mapping the
key works downstream, and what happens there neither maps the key of the table nor moves it.
-/

namespace KeyedSchema

namespace Schema

open Relation

variable {s s' s'' s₁ : Schema} {t : TableId} {c x : ColumnId} {r r' : RelationshipId} {depth : Nat}
  {key xs : List ColumnId} {rs : List RelationshipId}

/-! ## Dropping strays -/

section

variable {task : Prune}

/-- What every removal keeps, dropping the strays of a live relationship keeps. -/
theorem Sound.invariant_sweep {P : Schema → Prop} (hs : s.Sound) (hl : s.isLive r = true)
    (hw : WorksOff Prune.step [.sweep r key] s s')
    (hstep : ∀ (task : Prune) s₁, s₁.Sound → Shrinks s s₁ → (∀ c, task ≠ .demote c) → P s₁ →
      P (task.step s₁).2) (hP : P s) : P s' := by
  have hend := hw.invariant_all
    (J := fun tasks s₁ => Withering (fun r' m => r' = r ∧ m.pk ∉ key) s tasks s₁ ∧ P s₁)
    (fun task tasks s₁ h => ⟨h.1.step hs, ?_⟩) ⟨?_, hP⟩
  · exact hend.2
  -- no task of a sweep takes a column out of its key and leaves it in the table
  · refine hstep task s₁ h.1.sound h.1.shrinks (fun c => ?_) h.2
    rintro rfl
    exact h.1.may _ (List.mem_cons_self ..)
  · refine ⟨hs, .refl s, fun c hc hc' => ?_, fun _ _ _ hm hout => absurd hm hout, fun _ _ => rfl,
      fun task ht => ?_, fun _ _ _ _ hstray => ⟨_, List.mem_singleton_self _, hstray⟩⟩
    · exact absurd (hc.symm.trans hc') Bool.noConfusion
    · obtain rfl := List.mem_singleton.mp ht
      exact ⟨hl, fun _ _ hstray => ⟨rfl, hstray⟩⟩

/-- Taking columns and mappings out puts no live relationship out of order. -/
theorem InOrder.prune_step (h : s.InOrder r) (hs : s.Sound) (hl : s.isLive r = true)
    (htask : ∀ c, task ≠ .demote c) : (task.step s).2.InOrder r := by
  cases task with
  | check c => exact h
  | remove c =>
      cases hc : s.columns.contains c with
      | true => exact h.cut hs hc
      | false => rwa [hs.step_remove_of_not_contains hc]
  | number t =>
      simp only [Prune.step]
      split
      · exact h.normalizeKey hs hl t none
      · exact h
  | unmap r' pk =>
      simp only [Prune.step]
      split
      · exact (unmaps_removeMappingAt ..).inOrder h
      · exact h
  | demote c => exact absurd rfl (htask c)
  | loosen r' fk => exact h
  | sweep r' key =>
      simp only [Prune.step]
      split
      · exact (unmaps_removeMappingAt ..).inOrder h
      · exact h

/-- Numbering keys again changes nothing of a numbered key. -/
theorem NumberedAs.normalizeKey (h : NumberedAs t key s) (hs : s.Sound) (t' : TableId) :
    NumberedAs t key (s.normalizeKey t' none) := by
  by_cases heq : t' = t
  · subst heq
    have hkey : (s.keyOrder t' none).map Prod.fst = key := by
      rw [keyOrder_none]
      exact h.primaryKey_eq hs
    exact hkey ▸ hs.numberedAs_normalizeKey t' none
  · refine h.congr (fun x => ?_) fun x hx => rank?_normalizeKey_of_not none fun hin => heq ?_
    · rw [(reranks_normalizeKey t' none s).owner?, hs.isKey_normalizeKey]
    · exact Option.some.inj (((hs.listed t' x).mp hin.1).symm.trans hx)

theorem Unmaps.numberedAs (hun : Unmaps s s') (h : NumberedAs t key s) : NumberedAs t key s' :=
  h.congr (fun x => by rw [hun.owner?, hun.isKey]) fun x _ => hun.rank? x

/-- Cutting a column out of another key, or of none, leaves a numbered key as it is. -/
theorem NumberedAs.cut (h : NumberedAs t key s) (hs : s.Sound) (hc : s.columns.contains c = true)
    (hout : c ∉ key) : NumberedAs t key (s.cut c) := by
  constructor
  · intro x
    rw [h.mem_iff, hs.owner?_cut hc, hs.isKey_cut hc]
    by_cases heq : x = c
    · subst heq
      simp [← h.mem_iff, hout]
    · simp [heq]
  · intro i x hx
    have hne : x ≠ c := fun heq => hout (heq ▸ List.mem_of_getElem? hx)
    rw [hs.rank?_cut hc, if_neg hne]
    exact h.ranks i x hx

/-- Taking columns and mappings out leaves a numbered key as it is, as long as its columns stay. -/
theorem NumberedAs.prune_step (h : NumberedAs t key s) (hs : s.Sound)
    (htask : ∀ c, task ≠ .demote c)
    (hkey : ∀ x ∈ key, (task.step s).2.columns.contains x = true) :
    NumberedAs t key (task.step s).2 := by
  cases task with
  | check c => exact h
  | remove c =>
      cases hc : s.columns.contains c with
      | true =>
          refine h.cut hs hc fun hin => ?_
          have hstays : (s.cut c).columns.contains c = true := hkey c hin
          rw [hs.columns_cut hc, Roster.contains_erase] at hstays
          simp at hstays
      | false => rwa [hs.step_remove_of_not_contains hc]
  | number t' =>
      simp only [Prune.step]
      split
      · exact h.normalizeKey hs t'
      · exact h
  | unmap r' pk =>
      simp only [Prune.step]
      split
      · exact (unmaps_removeMappingAt ..).numberedAs h
      · exact h
  | demote c => exact absurd rfl (htask c)
  | loosen r' fk => exact h
  | sweep r' key' =>
      simp only [Prune.step]
      split
      · exact (unmaps_removeMappingAt ..).numberedAs h
      · exact h

end

/-- Dropping strays puts no live relationship out of order. -/
theorem InOrder.sweep (h : s.InOrder r') (hs : s.Sound) (hl : s.isLive r = true)
    (hl' : s.isLive r' = true) (hw : WorksOff Prune.step [.sweep r key] s s') : s'.InOrder r' :=
  hs.invariant_sweep (P := fun s₁ => s₁.InOrder r') hl hw
    (fun _ _ hs₁ hsh htask h₁ => h₁.prune_step hs₁ ((hsh.frame.isLive r').trans hl') htask) h

/-- Dropping strays leaves a numbered key as it is if its columns stay. -/
theorem NumberedAs.sweep (h : NumberedAs t key s) (hs : s.Sound) (hl : s.isLive r = true)
    (hw : WorksOff Prune.step [.sweep r key] s s')
    (hkey : ∀ x ∈ key, s'.columns.contains x = true) : NumberedAs t key s' := by
  -- a column that is there at the end was there all the time
  refine hs.invariant_sweep (P := fun s₁ => (∀ x ∈ key, s₁.columns.contains x = true) →
    NumberedAs t key s₁) hl hw (fun task s₁ hs₁ _ htask h₁ hkey₁ => ?_) (fun _ => h) hkey
  have hsh := (hs₁.prune_step task).2
  exact (h₁ fun x hx => hsh.contains (hkey₁ x hx)).prune_step hs₁ htask hkey₁

/-! ## Mapping a key -/

/-- What follows from mapping a column of `t` happens beyond `t`. -/
theorem Downstream.beyond (h : Downstream t s (.map depth r x)) (hs : s.Sound) :
    ∀ next ∈ ((Grow.map depth r x).step s).1,
      next.Stays (TransGen s.Feeds t) (TransGen s.Feeds t) ((Grow.map depth r x).step s).2 := by
  intro next hnext
  have hstays := h.stays.step hs (s.fences_strictly_below t) next hnext
  have hkind : (∃ depth c, next = .promote depth c) ∨ ∃ r, next = .sync r := by
    simp only [Grow.step] at hnext
    split at hnext
    · exact absurd hnext List.not_mem_nil
    · split at hnext
      · rcases List.mem_cons.mp hnext with rfl | hnext
        · exact .inl ⟨_, _, rfl⟩
        · exact .inr ⟨_, List.mem_singleton.mp hnext⟩
      · exact .inr ⟨_, List.mem_singleton.mp hnext⟩
  rcases hkind with ⟨_, _, rfl⟩ | ⟨_, rfl⟩ <;> exact hstays

/-- Mapping a column of the key of `t` in one relationship adds just that to what `t` exports, and
puts none of the other relationships out of order. -/
theorem Sound.mapped_alone (hs : s.Sound) (ha : s.Acyclic) (hl : s.isLive r = true)
    (hp : s.parent? r = some t) (hx : s.owner? x = some t)
    (hw : WorksOff Grow.step [.map depth r x] s s') (hl' : s.isLive r' = true)
    (hp' : s.parent? r' = some t) :
    (∀ y, y ∈ (s'.mappingsOf r').map Mapping.pk ↔
      y ∈ (s.mappingsOf r').map Mapping.pk ∨ (r' = r ∧ y = x)) ∧
      (r' ≠ r → s.InOrder r' → s'.InOrder r') := by
  have hdown : Downstream t s (.map depth r x) := ⟨hl, t, hp, hx, .refl⟩
  have hready := hdown.stays.ready
  have hbeyond := hdown.beyond hs
  obtain ⟨hs₁, hg₁, -⟩ := hs.grow_step hready
  have hfence := (s.fences_beyond t).frame hg₁.frame
  have hl₁ := (hg₁.frame.isLive r').trans hl'
  have hp₁ := (hg₁.frame.parent? r').trans hp'
  cases hw with
  | task hw =>
      rw [List.append_nil] at hw
      have hg := (hs₁.grow (fun task ht => (hbeyond task ht).ready) hw).2
      refine ⟨fun y => Iff.trans ⟨fun hy => ?_, fun hy => ?_⟩ (hs.mem_pks_map hready),
        fun hne hord => ?_⟩
      · exact List.map_subset _ (hs₁.mappingsOf_elsewhere hfence hbeyond hw hp₁ (ha t)) hy
      · exact List.map_subset _ (hg.mappingsOf r') hy
      · have hmap := hs.mappingsOf_map_of_ne hready hne
        refine hs₁.inOrder_elsewhere hfence hbeyond hw hl₁ hp₁ (ha t)
          (hord.congr hmap fun m hm => ?_)
        rw [hmap] at hm
        exact hs.rank?_grow_step hdown.stays (hs.pk_owner hm hp') (ha t)

/-- Mapping columns of the key of `t` in one relationship adds just that to what `t` exports, and
puts none of the other relationships out of order. -/
theorem Sound.mapped_all (hs : s.Sound) (ha : s.Acyclic) (hl : s.isLive r = true)
    (hp : s.parent? r = some t) (hxs : ∀ x ∈ xs, s.owner? x = some t)
    (hw : WorksOff Grow.step (xs.map (.map depth r)) s s') (hl' : s.isLive r' = true)
    (hp' : s.parent? r' = some t) :
    (∀ y, y ∈ (s'.mappingsOf r').map Mapping.pk ↔
      y ∈ (s.mappingsOf r').map Mapping.pk ∨ (r' = r ∧ y ∈ xs)) ∧
      (r' ≠ r → s.InOrder r' → s'.InOrder r') := by
  induction xs generalizing s with
  | nil =>
      cases hw
      simp
  | cons x xs ih =>
      rw [List.map_cons, ← List.singleton_append] at hw
      obtain ⟨s₁, hfirst, hrest⟩ := hw.split
      have hx := hxs x (List.mem_cons_self ..)
      have hdown : Downstream t s (.map depth r x) := ⟨hl, t, hp, hx, .refl⟩
      obtain ⟨hs₁, hg⟩ := hs.grow (by simpa using hdown.stays.ready) hfirst
      obtain ⟨hmem, hord⟩ := hs.mapped_alone ha hl hp hx hfirst hl' hp'
      have hxs₁ : ∀ y ∈ xs, s₁.owner? y = some t := fun y hy => by
        have hy := hxs y (List.mem_cons_of_mem _ hy)
        exact (hg.owner? (contains_of_owner? hy)).trans hy
      obtain ⟨hmem', hord'⟩ := ih hs₁ (ha.inherits hg.frame.inherits) ((hg.frame.isLive r).trans hl)
        ((hg.frame.parent? r).trans hp) hxs₁ hrest ((hg.frame.isLive r').trans hl')
        ((hg.frame.parent? r').trans hp')
      refine ⟨fun y => ?_, fun hne h => hord' hne (hord hne h)⟩
      rw [hmem', hmem, List.mem_cons, or_assoc, ← and_or_left]

/-! ## Relationships that follow a key -/

/-- Whether a relationship maps exactly the columns of a list, and in order. -/
structure Follows (key : List ColumnId) (r : RelationshipId) (s : Schema) : Prop where
  ordered : s.InOrder r
  mem_iff : ∀ x, x ∈ (s.mappingsOf r).map Mapping.pk ↔ x ∈ key

theorem Follows.mappings_eq (h : Follows key r s) (hs : s.Sound) (hkey : NumberedAs t key s) :
    (s.mappingsOf r).map Mapping.pk = s.primaryKey t :=
  (hkey.numbered hs).mappings_eq hs h.ordered fun x => by rw [hkey.primaryKey_eq hs, h.mem_iff]

/-- Once the strays of a relationship are gone, it maps columns of the key only. -/
theorem Sound.mem_of_sweep (hs : s.Sound) (hl : s.isLive r = true)
    (hw : WorksOff Prune.step [.sweep r key] s s') {x : ColumnId}
    (hx : x ∈ (s'.mappingsOf r).map Mapping.pk) : x ∈ key := by
  have hwithered := hs.withered_sweep hl hw
  obtain ⟨m, hm, rfl⟩ := List.mem_map.mp hx
  have hm₀ := hwithered.shrinks.mappingsOf r hm
  by_contra hout
  exact ((hwithered.mem_mappingsOf_iff hs hl hm₀).mp hm).1 ⟨rfl, hout⟩

/-- A relationship that follows a key goes on following it when the strays of another one go, as
long as no column of the key goes with them. -/
theorem Follows.sweep (h : Follows key r' s) (hs : s.Sound) (hl : s.isLive r = true)
    (hl' : s.isLive r' = true) (hne : r' ≠ r) (hw : WorksOff Prune.step [.sweep r key] s s')
    (hkey : ∀ x ∈ key, s'.columns.contains x = true) : Follows key r' s' := by
  have hend := hs.withered_sweep hl hw
  refine ⟨h.ordered.sweep hs hl hl' hw, fun x => ⟨fun hx => ?_, fun hx => ?_⟩⟩
  · exact (h.mem_iff x).mp (List.map_subset _ (hend.shrinks.mappingsOf r') hx)
  · obtain ⟨m, hm, rfl⟩ := List.mem_map.mp ((h.mem_iff x).mpr hx)
    refine List.mem_map_of_mem ((hend.mem_mappingsOf_iff hs hl' hm).mpr ⟨?_, hkey _ hx⟩)
    exact fun hstray => hne hstray.1

/-! ## Relationships brought in line one by one -/

/-- How far catching up has come: the key of `t` is numbered, and what `t` exports follows it but
for the relationships whose turn is still to come. -/
structure Resuming (t : TableId) (key : List ColumnId) (rs : List RelationshipId) (s : Schema) :
    Prop where
  sound : s.Sound
  acyclic : s.Acyclic
  numbered : NumberedAs t key s
  exported : ∀ r ∈ rs, s.isLive r = true ∧ s.parent? r = some t
  follows : ∀ r, s.isLive r = true → s.parent? r = some t → r ∉ rs → Follows key r s

/-- A turn brings its relationship in line and leaves the others so. -/
theorem Resuming.reconciles (h : Resuming t key (r :: rs) s) (hr : Reconciles key r s s') :
    Resuming t key rs s' := by
  obtain ⟨s₁, s₂, hw₁, hkey, hw₂, rfl⟩ := hr
  obtain ⟨hl, hp⟩ := h.exported r (List.mem_cons_self ..)
  -- its strays go
  have hwithered := h.sound.withered_sweep hl hw₁
  have hs₁ := hwithered.sound
  have hf₁ := hwithered.shrinks.frame
  have hnum₁ := h.numbered.sweep h.sound hl hw₁ hkey
  -- then it maps what it misses of the key
  have hl₁ := (hf₁.isLive r).trans hl
  have hp₁ := (hf₁.parent? r).trans hp
  have hdown : ∀ task ∈ key.map (Grow.map s.tables.size r), Downstream t s₁ task := by
    intro task ht
    obtain ⟨x, hx, rfl⟩ := List.mem_map.mp ht
    exact ⟨hl₁, t, hp₁, ((hnum₁.mem_iff x).mp hx).1, .refl⟩
  have ha₁ := h.acyclic.inherits hf₁.inherits
  obtain ⟨hs₂, hg⟩ := hs₁.grow (fun task ht => (hdown task ht).stays.ready) hw₂
  have hnum₂ := hnum₁.grow hs₁ ha₁ hdown hw₂
  have hre := reranks_syncMappingOrder r s₂
  have hf := (hf₁.trans hg.frame).trans hre.sameFrame
  refine ⟨hre.sound hs₂, h.acyclic.inherits hf.inherits, ?_, fun r' hr' => ?_,
    fun r' hl' hp' hr' => ?_⟩
  · refine hnum₂.congr (fun x => ?_) fun x _ => rank?_syncMappingOrder r s₂ x
    rw [hre.owner?, isKey_syncMappingOrder]
  · obtain ⟨hl', hp'⟩ := h.exported r' (List.mem_cons_of_mem _ hr')
    exact ⟨(hf.isLive r').trans hl', (hf.parent? r').trans hp'⟩
  · rw [hf.isLive] at hl'
    rw [hf.parent?] at hp'
    obtain ⟨hmem, hord⟩ := hs₁.mapped_all ha₁ hl₁ hp₁ (fun x hx => ((hnum₁.mem_iff x).mp hx).1) hw₂
      ((hf₁.isLive r').trans hl') ((hf₁.parent? r').trans hp')
    have hpks : ∀ x, x ∈ ((s₂.syncMappingOrder r).mappingsOf r').map Mapping.pk ↔
        x ∈ (s₁.mappingsOf r').map Mapping.pk ∨ (r' = r ∧ x ∈ key) := fun x =>
      ((hre.mappingsOf r').map Mapping.pk).mem_iff.trans (hmem x)
    by_cases heq : r' = r
    · subst heq
      refine ⟨inOrder_syncMappingOrder r' s₂, fun x => (hpks x).trans
        ⟨?_, fun hx => .inr ⟨rfl, hx⟩⟩⟩
      rintro (hx | ⟨-, hx⟩)
      · exact h.sound.mem_of_sweep hl hw₁ hx
      · exact hx
    · have hother : r' ∉ r :: rs := fun hin => (List.mem_cons.mp hin).elim heq hr'
      have hfollows := (h.follows r' hl' hp' hother).sweep h.sound hl hl' heq hw₁ hkey
      refine ⟨(hord heq hfollows.ordered).syncMappingOrder r, fun x => (hpks x).trans ?_⟩
      simp [heq, hfollows.mem_iff]

theorem Resuming.chain (h : Resuming t key rs s) (hc : Chain (Reconciles key) rs s s') :
    Resuming t key [] s' := by
  induction hc with
  | nil s => exact h
  | cons h₁ _ ih => exact ih (h.reconciles h₁)

/-- Once no relationship is left, there is nothing to catch up with any more. -/
theorem Resuming.needsReconcile (h : Resuming t key [] s) : s.needsReconcile t = false := by
  refine needsReconcile_eq_false.mpr ⟨fun i c hc => ?_, fun r hr => ?_⟩
  · rw [h.numbered.primaryKey_eq h.sound] at hc
    exact h.numbered.ranks i c hc
  · obtain ⟨hl, hp⟩ := (h.sound.mem_liveExportsOf_iff r t).mp hr
    exact (h.follows r hl hp List.not_mem_nil).mappings_eq h.sound h.numbered

/-- Catching up starts with a numbered key, and all that the table exports is still to come. -/
theorem Sound.resuming_normalizeKey (hs : s.Sound) (ha : s.Acyclic) (t : TableId) :
    Resuming t ((s.normalizeKey t none).primaryKey t) ((s.normalizeKey t none).liveExportsOf t)
      (s.normalizeKey t none) := by
  have hre := reranks_normalizeKey t none s
  have hs₁ := hre.sound hs
  have hnum := hs.numberedAs_normalizeKey t none
  refine ⟨hs₁, ha.inherits hre.sameFrame.inherits, ?_,
    fun r hr => (hs₁.mem_liveExportsOf_iff r t).mp hr, fun r hl hp hr => ?_⟩
  · exact (hnum.primaryKey_eq hs₁).symm ▸ hnum
  · exact absurd ((hs₁.mem_liveExportsOf_iff r t).mpr ⟨hl, hp⟩) hr

theorem Sound.resuming_catchUpStart (hs : s.Sound) (ha : s.Acyclic) (t : TableId) (name : String) :
    Resuming t ((s.catchUpStart t name).primaryKey t) ((s.catchUpStart t name).liveExportsOf t)
      (s.catchUpStart t name) :=
  ((hs.of_sameShape (sameShape_settled t s)).signal _).resuming_normalizeKey
    (ha.inherits ((inherits_settled t s).trans (SameObjects.signal _ _).sameFrame.inherits)) t

/-- Outside the mode a table with its magic on is in step. -/
theorem Exits.in_step (h : Exits t s s') (hs : s.Sound) (ha : s.Acyclic)
    (hmagic : s.hasMagic t = true) :
    (s'.primaryKey t).map s'.rank? = (List.range (s'.primaryKey t).length).map some ∧
      ∀ r ∈ s'.liveExportsOf t, (s'.mappingsOf r).map Mapping.pk = s'.primaryKey t := by
  cases h with
  | absent hnot =>
      have hnone := (Roster.contains_eq_false_iff _ _).mp hnot
      simp [hasMagic, hnone] at hmagic
  | plain htbl hquiet =>
      have hneeds := hquiet.resolve_left fun hoff => by
        simp [hasMagic, htbl, hoff] at hmagic
      obtain ⟨hranks, hmaps⟩ := needsReconcile_eq_false.mp hneeds
      exact ⟨(numbered_of_ranks hranks).ranks, hmaps⟩
  | @caughtUp tbl s₁ _ _ _ hchain =>
      have hend := (hs.resuming_catchUpStart ha t tbl.name).chain hchain
      obtain ⟨hranks, hmaps⟩ := needsReconcile_eq_false.mp hend.needsReconcile
      exact ⟨(numbered_of_ranks hranks).ranks, hmaps⟩

/-! ## What is told on the way -/

/-- Whether all that comes to be published has just been raised, and in that order. -/
def Reports (s s' : Schema) : Prop :=
  ∃ raised told, s'.raised = s.raised ++ raised ∧ s'.published = s.published ++ told ∧
    told.Sublist raised

namespace Reports

variable {e : Event} {es : List Event}

theorem of_same (hraised : s'.raised = s.raised) (hpublished : s'.published = s.published) :
    Reports s s' := ⟨[], [], by simp [hraised], by simp [hpublished], .slnil⟩

theorem refl (s : Schema) : Reports s s := of_same rfl rfl

theorem trans (h : Reports s s') (h' : Reports s' s'') : Reports s s'' := by
  obtain ⟨raised, told, hraised, htold, hsub⟩ := h
  obtain ⟨raised', told', hraised', htold', hsub'⟩ := h'
  exact ⟨raised ++ raised', told ++ told', by rw [hraised', hraised, List.append_assoc],
    by rw [htold', htold, List.append_assoc], hsub.append hsub'⟩

theorem signal (e : Event) (s : Schema) : Reports s (s.signal e) := ⟨[e], [e], rfl, rfl, .refl _⟩

/-- An event after a change that tells nothing is published or held back. -/
theorem raise (hraised : s₁.raised = s.raised) (hpublished : s₁.published = s.published) :
    Reports s (s₁.raise e) := by
  refine (of_same hraised hpublished).trans ?_
  unfold Schema.raise
  split
  · exact ⟨[e], [], rfl, (List.append_nil _).symm, List.nil_sublist _⟩
  · exact ⟨[e], [e], rfl, rfl, .refl _⟩

theorem foldl {α : Type} {f : Schema → α → Schema} (h : ∀ s a, Reports s (f s a)) (as : List α)
    (s : Schema) : Reports s (as.foldl f s) := by
  induction as generalizing s with
  | nil => exact refl s
  | cons a as ih => exact (h s a).trans (ih _)

theorem raiseAll (hraised : s₁.raised = s.raised) (hpublished : s₁.published = s.published) :
    Reports s (s₁.raiseAll es) :=
  (of_same hraised hpublished).trans (foldl (fun _ _ => raise rfl rfl) es s₁)

end Reports

theorem reports_syncMappingOrder (r : RelationshipId) (s : Schema) :
    Reports s (s.syncMappingOrder r) := by
  unfold syncMappingOrder
  split
  · exact .refl s
  · dsimp only
    split
    · exact .refl s
    · exact .raise rfl rfl

theorem reports_changeRank (c : ColumnId) (old new : Option Nat) (s : Schema) :
    Reports s (s.changeRank c old new) := by
  unfold changeRank
  exact .raise rfl rfl

theorem reports_renumber (n : Nat) (ranks : List (ColumnId × Nat)) (s : Schema) :
    Reports s (renumber n ranks s) := by
  induction ranks generalizing n s with
  | nil => exact .refl s
  | cons entry ranks ih =>
      unfold renumber
      split
      · exact ih _ _
      · exact (reports_changeRank ..).trans (ih _ _)

theorem reports_normalizeKey (t : TableId) (placed : Option ColumnId) (s : Schema) :
    Reports s (s.normalizeKey t placed) :=
  (reports_renumber 0 _ s).trans (.foldl (fun s r => reports_syncMappingOrder r s) _ _)

theorem reports_removeMappingAt (r : RelationshipId) (m : Mapping) (i : Nat) (s : Schema) :
    Reports s (s.removeMappingAt r m i) := by
  unfold removeMappingAt
  exact .raise rfl rfl

theorem reports_unmapColumn (c : ColumnId) (s : Schema) : Reports s (s.unmapColumn c) := by
  refine .foldl (fun s r => ?_) _ _
  unfold unmapWhere
  split
  · exact .refl s
  · exact .raiseAll rfl rfl

theorem reports_cut (c : ColumnId) (s : Schema) : Reports s (s.cut c) := by
  unfold cut
  split
  · exact .refl s
  · split
    · exact .refl s
    · rename_i t _ _ i _
      have hdrop : Reports s (s.dropColumn t i c) := by
        unfold dropColumn
        exact .raise rfl rfl
      exact hdrop.trans (reports_unmapColumn c _)

/-- A promotion reports what it does. -/
theorem coversPromotion_reports : CoversPromotion Reports where
  refl := .refl
  trans := .trans
  changeRank := reports_changeRank
  normalizeKey := reports_normalizeKey
  placeColumn t i col s := by
    unfold placeColumn
    exact .raise rfl rfl
  appendMapping r m s := by
    unfold appendMapping
    exact .raise rfl rfl
  syncMappingOrder := reports_syncMappingOrder

/-- A task of a removal reports what it does. -/
theorem reports_prune_step (task : Prune) (s : Schema) : Reports s (task.step s).2 := by
  cases task with
  | check c => exact .refl s
  | remove c => exact reports_cut c s
  | number t =>
      simp only [Prune.step]
      split
      · exact reports_normalizeKey ..
      · exact .refl s
  | unmap r pk =>
      simp only [Prune.step]
      split
      · exact reports_removeMappingAt ..
      · exact .refl s
  | demote c =>
      simp only [Prune.step]
      split
      · split
        · exact (reports_changeRank ..).trans (reports_normalizeKey ..)
        · exact reports_changeRank ..
      · exact .refl s
  | loosen r fk => exact .refl s
  | sweep r key =>
      simp only [Prune.step]
      split
      · exact reports_removeMappingAt ..
      · exact .refl s

theorem Reconciles.reports (h : Reconciles key r s s') : Reports s s' := by
  obtain ⟨s₁, s₂, hprune, -, hgrow, rfl⟩ := h
  have hfirst : Reports s s₁ :=
    hprune.relation Reports.refl (fun _ _ _ => Reports.trans) reports_prune_step
  exact (hfirst.trans (coversPromotion_reports.run hgrow)).trans (reports_syncMappingOrder r s₂)

theorem reports_of_chain (h : Chain (Reconciles key) rs s s') : Reports s s' :=
  h.invariant (fun _ _ _ _ hreports h₁ => hreports.trans h₁.reports) (.refl s)

/-- Leaving the mode publishes what was held back before anything else. -/
theorem Exits.reports (h : Exits t s s') (ht : s.tables.contains t = true) :
    Reports (s.settled t) s' := by
  cases h with
  | absent hnot => exact absurd (hnot.symm.trans ht) Bool.noConfusion
  | plain _ _ => exact .refl _
  | caughtUp _ _ _ hchain =>
      exact (((Reports.signal _ _).trans (reports_normalizeKey t none _)).trans
        (reports_of_chain hchain)).trans (.signal _ _)

/-! ## Leaving the mode -/

/-- Whether a call that leaves secondary-change mode on a table succeeds: switching the mode off, or
closing the scope that switched it on. -/
def Leaves (t : TableId) (s s' : Schema) : Prop :=
  (Op.setSecondaryChangeMode t false).perform s = (.ok .done, s') ∨
    (Edit.leave (.secondaryChange t true)).perform s = (.ok (), s')

theorem Leaves.exits (h : Leaves t s s') (hs : s.Sound) (hmode : s.isHolding t = true) :
    Exits t s s' := by
  rcases h with h | h
  · obtain ⟨-, ⟨hnot, -⟩ | ⟨-, hexits⟩⟩ :=
      Edit.Ends.of_ok (Op.edit_ends hs (.setSecondaryChangeMode t false)) h
    · exact absurd (hnot.symm.trans hmode) Bool.noConfusion
    · exact hexits
  · exact (Edit.exitSecondaryChange_ends hs t).of_ok h

theorem Exits.isHolding (h : Exits t s s') (hs : s.Sound) : s'.isHolding t = false := by
  rw [isHolding_eq_of_switchesOf, (h.sameFrame hs).switchesOf, switchesOf_settled, if_pos rfl]
  cases s.switchesOf t <;> rfl

/-- Of a table with its magic off nothing is caught up with. -/
theorem Exits.eq_settled (h : Exits t s s') (ht : s.tables.contains t = true)
    (hmagic : s.hasMagic t = false) : s' = s.settled t := by
  cases h with
  | absent hnot => exact absurd (hnot.symm.trans ht) Bool.noConfusion
  | plain _ _ => rfl
  | caughtUp htbl hon _ _ => simp [hasMagic, htbl, hon] at hmagic

/-- In a schema that can be reached, let a call that leaves secondary-change mode on a table
succeed. The events held back for the table are published first, in their order, and then nothing
but what the call has raised. If the magic of the table is on, its ranks are `0`, `1`, … and every
live relationship that it exports maps exactly its key, in order, whatever they were before. If it
is off, nothing that is stored changes but the mode of the table. -/
theorem Reachable.leaving_catches_up (h : s.Reachable) (hmode : s.isHolding t = true)
    (hleaves : Leaves t s s') :
    s'.isHolding t = false ∧
    (∃ raised told, s'.raised = s.raised ++ raised ∧
      s'.published = s.published ++ s.heldFor t ++ told ∧ told.Sublist raised) ∧
    (s.hasMagic t = true →
      (s'.primaryKey t).map s'.rank? = (List.range (s'.primaryKey t).length).map some ∧
        ∀ r ∈ s'.liveExportsOf t, (s'.mappingsOf r).map Mapping.pk = s'.primaryKey t) ∧
    (s.hasMagic t = false →
      s'.tables = s.tables.modify t (fun tbl => { tbl with inSecondaryChange := false }) ∧
        s'.columns = s.columns ∧ s'.relationships = s.relationships) := by
  have hs := h.sound
  have hexits := hleaves.exits hs hmode
  obtain ⟨tbl, htbl, -⟩ := isHolding_iff.mp hmode
  have ht := Roster.contains_of_get? htbl
  refine ⟨hexits.isHolding hs, hexits.reports ht, fun hmagic => hexits.in_step hs h.acyclic hmagic,
    fun hmagic => ?_⟩
  rw [hexits.eq_settled ht hmagic]
  exact ⟨rfl, rfl, rfl⟩

/-- A table that exports two relationships goes into the mode. There its key column `id` gives way
to two new ones of the same rank, of which one relationship maps the second. -/
def driftingMoves : List Move :=
  [.edit (.addTable { name := "a" }), .edit (.addTable { name := "b" }),
    .edit (.addTable { name := "c" }),
    .edit (.addColumn ⟨1⟩ { name := "id", rank := some 0 }),
    .edit (.createRelationship { name := "ab", identifying := true }),
    .edit (.createRelationship { name := "ac" }),
    .edit (.attachRelationship ⟨1⟩ ⟨1⟩ ⟨2⟩ true), .edit (.attachRelationship ⟨2⟩ ⟨1⟩ ⟨3⟩ true),
    .edit (.setSecondaryChangeMode ⟨1⟩ true),
    .edit (.addColumn ⟨1⟩ { name := "x", rank := some 7 }),
    .edit (.addColumn ⟨1⟩ { name := "y", rank := some 7 }),
    .edit (.mapPrimaryKeyColumn ⟨2⟩ ⟨5⟩),
    .edit (.setPrimaryKeySeq ⟨1⟩ none)]

/-- The tables once the key has drifted. -/
def drifting : Schema := ((Moment.start {}).run driftingMoves).schema

/-- The tables once the mode is left. -/
def resumed : Schema := ((Op.setSecondaryChangeMode ⟨1⟩ false).perform drifting).2

/-- The two columns that tie come to be numbered, both relationships drop the mapping of `id` and
map them in order, and what was held back is told first. -/
theorem leaving_catches_up_drifting : drifting.Reachable ∧ drifting.isHolding ⟨1⟩ = true ∧
    Leaves ⟨1⟩ drifting resumed ∧ (drifting.heldFor ⟨1⟩).length = 3 ∧
    [⟨4⟩, ⟨5⟩].map drifting.rank? = [some 7, some 7] ∧
    [⟨1⟩, ⟨2⟩].map (fun r => (drifting.mappingsOf r).map Mapping.pk) = [[⟨1⟩], [⟨1⟩, ⟨5⟩]] ∧
    drifting.published ++ drifting.heldFor ⟨1⟩ <+: resumed.published ∧
    [⟨4⟩, ⟨5⟩].map resumed.rank? = [some 0, some 1] ∧
    ∀ r ∈ [⟨1⟩, ⟨2⟩], (resumed.mappingsOf r).map Mapping.pk = [⟨4⟩, ⟨5⟩] := by
  have hreach : drifting.Reachable := ⟨{}, driftingMoves, rfl⟩
  have hmode : drifting.isHolding ⟨1⟩ = true := by decide +kernel
  have hmagic : drifting.hasMagic ⟨1⟩ = true := by decide +kernel
  have hreply : ((Op.setSecondaryChangeMode ⟨1⟩ false).perform drifting).1 = .ok .done := by
    decide +kernel
  have hleaves : Leaves ⟨1⟩ drifting resumed := by
    left
    unfold resumed
    rw [← hreply]
  have hkey : resumed.primaryKey ⟨1⟩ = [⟨4⟩, ⟨5⟩] := by decide +kernel
  have hexports : resumed.liveExportsOf ⟨1⟩ = [⟨1⟩, ⟨2⟩] := by decide +kernel
  obtain ⟨-, ⟨_, told, -, hpublished, -⟩, hstep, -⟩ := hreach.leaving_catches_up hmode hleaves
  obtain ⟨hranks, hmaps⟩ := hstep hmagic
  rw [hkey] at hranks hmaps
  exact ⟨hreach, hmode, hleaves, by decide +kernel, by decide +kernel, by decide +kernel,
    ⟨told, hpublished.symm⟩, hranks, hexports ▸ hmaps⟩

end Schema

end KeyedSchema
