import KeyedSchema.Proofs.Accounting

/-!
# Withering — which columns go when some mappings do

Cascades take mappings of live relationships out, the **stray** ones. A column that loses its last
live mapping goes with them, and the mappings of that column go as well, so that more columns may
follow. `Withers` says which columns these are, without running anything: it is the least set of
columns that all of their live mappings leave.

`Withering` says how far a run has come. At its end (`Withered`) exactly the columns that wither are
gone, and exactly the strays and the mappings of these columns. What two runs wither one after the
other is what their strays wither together (`Withered.trans`).
-/

namespace KeyedSchema

namespace Prune

/-- Whether a task takes the mapping out. -/
def Takes : Prune → RelationshipId → Mapping → Prop
  | unmap r pk, r', m => r' = r ∧ m.pk = pk
  | sweep r key, r', m => r' = r ∧ m.pk ∉ key
  | _, _, _ => False

end Prune

namespace Schema

variable {s s' s'' s₀ : Schema} {c : ColumnId} {r : RelationshipId} {m : Mapping} {task : Prune}
  {tasks new : List Prune} {stray stray' : RelationshipId → Mapping → Prop}

/-- Whether a column goes when the stray mappings go: live relationships map it, and every one of
its mappings is a stray one or comes from a column that goes as well. -/
inductive Withers (stray : RelationshipId → Mapping → Prop) (s : Schema) : ColumnId → Prop
  | intro {c : ColumnId} (mapped : s.isRetained c = true)
      (leaves : ∀ r m, s.isLive r = true → m ∈ s.mappingsOf r → m.fk = c → ¬ stray r m →
        Withers stray s m.pk) : Withers stray s c

namespace Withers

theorem isRetained (h : Withers stray s c) : s.isRetained c = true := by
  cases h with
  | intro mapped _ => exact mapped

/-- The mappings of a column that goes are stray ones or come from columns that go. -/
theorem of_mapped (h : Withers stray s m.fk) (hl : s.isLive r = true) (hm : m ∈ s.mappingsOf r) :
    stray r m ∨ Withers stray s m.pk := by
  cases h with
  | intro _ leaves =>
      by_cases hstray : stray r m
      · exact .inl hstray
      · exact .inr (leaves r m hl hm rfl hstray)

/-- A stray mapping may be passed over if its parent column goes anyway. -/
theorem imp (h : Withers stray s c) (himp : ∀ r m, s.isLive r = true → m ∈ s.mappingsOf r →
    stray r m → stray' r m ∨ Withers stray' s m.pk) : Withers stray' s c := by
  induction h with
  | intro mapped _ ih =>
      apply Withers.intro mapped
      intro r m hl hm hfk hno
      by_cases hstray : stray r m
      · exact (himp r m hl hm hstray).resolve_left hno
      · exact ih r m hl hm hfk hstray

/-- Nothing goes without a stray mapping to start with. -/
theorem exists_stray (h : Withers stray s c) (hs : s.Sound) :
    ∃ r m, s.isLive r = true ∧ m ∈ s.mappingsOf r ∧ stray r m := by
  induction h with
  | intro mapped _ ih =>
      rcases (hs.isRetained_iff _).mp mapped with ⟨r, hl, m, hm, hfk⟩
      by_cases hstray : stray r m
      · exact ⟨r, m, hl, hm, hstray⟩
      · exact ih r m hl hm hfk hstray

end Withers

/-- Which columns go depends on the shape of a schema alone. -/
theorem SameShape.withers_iff (h : SameShape s s') (hs : s.Sound) :
    s'.Withers stray c ↔ s.Withers stray c := by
  constructor
  · intro hc
    induction hc with
    | intro mapped _ ih =>
        apply Withers.intro ((h.isRetained hs _).symm.trans mapped)
        exact fun r m hl hm => ih r m ((h.isLive r).trans hl) (h.mem_mappingsOf.mpr hm)
  · intro hc
    induction hc with
    | intro mapped _ ih =>
        apply Withers.intro ((h.isRetained hs _).trans mapped)
        exact fun r m hl hm => ih r m ((h.isLive r).symm.trans hl) (h.mem_mappingsOf.mp hm)

/-! ## How far a run has come -/

/-- Whether a task may come up when the stray mappings go. -/
def MayWither (stray : RelationshipId → Mapping → Prop) (s : Schema) : Prune → Prop
  | .check c => s.isRetained c = true
  | .remove c => s.Withers stray c
  | .number _ => True
  | .unmap r pk => s.isLive r = true ∧ ∀ m ∈ s.mappingsOf r, m.pk = pk → stray r m
  | .sweep r key => s.isLive r = true ∧ ∀ m ∈ s.mappingsOf r, m.pk ∉ key → stray r m
  | .demote _ => False
  | .loosen _ _ => False

/-- How far the going of the stray mappings has come, from the schema `s₀` on. -/
structure Withering (stray : RelationshipId → Mapping → Prop) (s₀ : Schema) (tasks : List Prune)
    (s : Schema) : Prop where
  sound : s.Sound
  shrinks : Shrinks s₀ s
  gone : ∀ c, s₀.columns.contains c = true → s.columns.contains c = false → s₀.Withers stray c
  unmapped : ∀ r m, s₀.isLive r = true → m ∈ s₀.mappingsOf r → m ∉ s.mappingsOf r →
    stray r m ∨ s₀.Withers stray m.pk
  isKey : ∀ c, s.columns.contains c = true → s.isKey c = s₀.isKey c
  may : ∀ task ∈ tasks, MayWither stray s₀ task
  /-- A stray mapping that is there is still to be taken out. -/
  pending : ∀ r m, s₀.isLive r = true → m ∈ s.mappingsOf r → stray r m →
    ∃ task ∈ tasks, task.Takes r m

namespace Withering

/-- A column that was mapped and is not any more goes. -/
theorem withers_of_check (h : Withering stray s₀ tasks s) (hmapped : s₀.isRetained c = true)
    (hnot : s.isRetained c = false) : s₀.Withers stray c := by
  apply Withers.intro hmapped
  intro r m hl hm hfk hno
  have hout : m ∉ s.mappingsOf r := by
    intro hm'
    have hret := (h.sound.isRetained_iff c).mpr
      ⟨r, (h.shrinks.frame.isLive r).trans hl, m, hm', hfk⟩
    exact absurd (hnot.symm.trans hret) Bool.noConfusion
  exact (h.unmapped r m hl hm hout).resolve_left hno

/-- A task is worked off if what it takes out goes, what it leads to may come up, and no stray
mapping that it was to take out is left without one of the new tasks. -/
theorem advance (h : Withering stray s₀ (task :: tasks) s) (hs' : s'.Sound) (hsh : Shrinks s s')
    (hgone : ∀ c, s.columns.contains c = true → s'.columns.contains c = false → s₀.Withers stray c)
    (hunmapped : ∀ r m, s₀.isLive r = true → m ∈ s.mappingsOf r → m ∉ s'.mappingsOf r →
      stray r m ∨ s₀.Withers stray m.pk)
    (hkey : ∀ c, s'.columns.contains c = true → s'.isKey c = s.isKey c)
    (hnew : ∀ task' ∈ new, MayWither stray s₀ task')
    (hpending : ∀ r m, m ∈ s'.mappingsOf r → task.Takes r m → ∃ task' ∈ new, task'.Takes r m) :
    Withering stray s₀ (new ++ tasks) s' where
  sound := hs'
  shrinks := h.shrinks.trans hsh
  gone c hc hc' := by
    cases hcs : s.columns.contains c with
    | false => exact h.gone c hc hcs
    | true => exact hgone c hcs hc'
  unmapped r m hl hm hout := by
    by_cases hin : m ∈ s.mappingsOf r
    · exact hunmapped r m hl hin hout
    · exact h.unmapped r m hl hm hin
  isKey c hc := (hkey c hc).trans (h.isKey c (hsh.contains hc))
  may task' ht := by
    rcases List.mem_append.mp ht with ht | ht
    · exact hnew task' ht
    · exact h.may task' (List.mem_cons_of_mem _ ht)
  pending r m hl hm hstray := by
    rcases h.pending r m hl (hsh.mappingsOf r hm) hstray with ⟨task', ht, htakes⟩
    rcases List.mem_cons.mp ht with rfl | ht
    · rcases hpending r m hm htakes with ⟨task'', ht, htakes⟩
      exact ⟨task'', List.mem_append_left _ ht, htakes⟩
    · exact ⟨task', List.mem_append_right _ ht, htakes⟩

/-- A step that takes out neither columns nor key columns nor mappings. -/
theorem reshape (h : Withering stray s₀ (task :: tasks) s) (hshape : SameShape s s')
    (hsh : Shrinks s s') (hkey : ∀ c, s'.isKey c = s.isKey c)
    (hnew : ∀ task' ∈ new, MayWither stray s₀ task')
    (hnone : ∀ r, ∀ m ∈ s.mappingsOf r, ¬ task.Takes r m) :
    Withering stray s₀ (new ++ tasks) s' := by
  apply h.advance (h.sound.of_sameShape hshape) hsh ?gone ?unmapped (fun c _ => hkey c) hnew
    ?pending
  case gone =>
    intro c hc hc'
    rw [hshape.contains_column, hc] at hc'
    exact absurd hc' Bool.noConfusion
  case unmapped => exact fun r m _ hm hout => absurd (hshape.mem_mappingsOf.mpr hm) hout
  case pending => exact fun r m hm htakes => absurd htakes (hnone r m (hshape.mem_mappingsOf.mp hm))

/-- Cutting a column that goes. -/
theorem cut (h : Withering stray s₀ (.remove c :: tasks) s) (hs₀ : s₀.Sound)
    (hc : s.columns.contains c = true) :
    Withering stray s₀ (Prune.afterCut s c ++ tasks) (s.cut c) := by
  have hgoes : s₀.Withers stray c := h.may _ (List.mem_cons_self ..)
  apply h.advance (h.sound.cut hc) (h.sound.shrinks_cut hc) ?gone ?unmapped ?key ?new ?pending
  case gone =>
    intro c' hc' hgone
    rw [h.sound.columns_cut hc, Roster.contains_erase, hc', Bool.and_true, Bool.not_eq_false',
      decide_eq_true_eq] at hgone
    exact hgone ▸ hgoes
  case unmapped =>
    -- what leaves now has the column on one of its sides
    intro r m hl hm hout
    by_cases hpk : m.pk = c
    · exact .inr (hpk ▸ hgoes)
    · by_cases hfk : m.fk = c
      · exact (hfk ▸ hgoes).of_mapped hl (h.shrinks.mappingsOf r hm)
      · exact absurd ((h.sound.mem_mappingsOf_cut hc).mpr ⟨hm, hpk, hfk⟩) hout
  case key =>
    intro c' hc'
    rw [h.sound.columns_cut hc, Roster.contains_erase, Bool.and_eq_true] at hc'
    rw [h.sound.isKey_cut hc, hc'.1, Bool.true_and]
  case new =>
    intro task' ht
    rcases h.sound.mem_afterCut ht with ⟨f, rfl, hf⟩ | ⟨t, rfl⟩
    · exact h.shrinks.isRetained hs₀ h.sound hf
    · trivial
  case pending => exact fun _ _ _ htakes => htakes.elim

/-- Dropping the first mapping that a task takes out. -/
theorem drop (h : Withering stray s₀ (task :: tasks) s) (hs₀ : s₀.Sound)
    (hl : s₀.isLive r = true) {p : Mapping → Bool} {i : Nat}
    (hi : (s.mappingsOf r).findIdx? p = some i) (hm : (s.mappingsOf r).find? p = some m)
    (hstray : stray r m) (hnew : ∀ task' ∈ new, task' = .check m.fk ∨ task' = task)
    (hrest : ∀ r' m', m' ∈ (s.removeMappingAt r m i).mappingsOf r' → task.Takes r' m' →
      task ∈ new) : Withering stray s₀ (new ++ tasks) (s.removeMappingAt r m i) := by
  have hun := unmaps_removeMappingAt r m i s
  have hmem := h.shrinks.mappingsOf r (List.mem_of_find?_eq_some hm)
  apply h.advance (h.sound.of_unmaps hun) hun.shrinks ?gone ?unmapped
    (fun c _ => hun.isKey c) ?new ?pending
  case gone =>
    intro c hc hc'
    rw [hun.columns, hc] at hc'
    exact absurd hc' Bool.noConfusion
  case unmapped =>
    -- what leaves now is the stray mapping alone
    intro r' m' _ hm' hout
    rcases mem_removeMappingAt hi hm hm' with ⟨rfl, rfl⟩ | hin
    · exact .inl hstray
    · exact absurd hin hout
  case new =>
    intro task' ht
    rcases hnew task' ht with rfl | rfl
    · exact (hs₀.isRetained_iff _).mpr ⟨r, hl, m, hmem, rfl⟩
    · exact h.may _ (List.mem_cons_self ..)
  case pending => exact fun r' m' hm' htakes => ⟨task, hrest r' m' hm' htakes, htakes⟩

/-- Every task that may come up is worked off. -/
theorem step (h : Withering stray s₀ (task :: tasks) s) (hs₀ : s₀.Sound) :
    Withering stray s₀ ((task.step s).1 ++ tasks) (task.step s).2 := by
  have hsh := (h.sound.prune_step task).2
  have hmay := h.may task (List.mem_cons_self ..)
  cases task with
  | check c =>
      refine h.reshape (.refl s) (.refl s) (fun _ => rfl) (fun task' ht => ?_) fun _ _ _ => id
      simp only [Prune.step] at ht
      split at ht
      · rename_i hcond
        obtain rfl := List.mem_singleton.mp ht
        rw [Bool.and_eq_true, Bool.not_eq_true'] at hcond
        exact h.withers_of_check hmay hcond.2
      · exact absurd ht List.not_mem_nil
  | remove c =>
      cases hc : s.columns.contains c with
      | true => exact h.cut hs₀ hc
      | false =>
          rw [h.sound.step_remove_of_not_contains hc]
          exact h.reshape (.refl s) (.refl s) (fun _ => rfl) (by simp) fun _ _ _ => id
  | number t =>
      refine h.reshape (sameShape_number t s) hsh (fun c => ?_) (by simp [Prune.step])
        fun _ _ _ => id
      simp only [Prune.step]
      split
      · exact h.sound.isKey_normalizeKey t none c
      · rfl
  | unmap r pk =>
      simp only [Prune.step]
      split
      · rename_i i m hi hm
        have hpk : m.pk = pk := by simpa using List.find?_some hm
        have hmem := List.mem_of_find?_eq_some hm
        refine h.drop hs₀ hmay.1 hi hm (hmay.2 m (h.shrinks.mappingsOf r hmem) hpk)
          (fun task' ht => .inl (List.mem_singleton.mp ht)) fun r' m' hm' htakes => ?_
        -- a relationship maps a column once, so nothing more of it is left to take
        obtain ⟨rfl, hpk'⟩ := htakes
        have hun := unmaps_removeMappingAt r' m i s
        obtain rfl := h.sound.pk_unique (hun.shrinks.mappingsOf r' hm') hmem (hpk'.trans hpk.symm)
        exact absurd hm' (h.sound.notMem_removeMappingAt hi hm)
      · rename_i hnone
        refine h.reshape (.refl s) (.refl s) (fun _ => rfl) (by simp) fun r' m hm htakes => ?_
        obtain ⟨rfl, hpk⟩ := htakes
        simpa [hpk] using eq_false_of_not_found hnone hm
  | sweep r key =>
      simp only [Prune.step]
      split
      · rename_i i m hi hm
        have hstray : m.pk ∉ key := by simpa using List.find?_some hm
        have hmem := h.shrinks.mappingsOf r (List.mem_of_find?_eq_some hm)
        refine h.drop hs₀ hmay.1 hi hm (hmay.2 m hmem hstray) (fun task' ht => ?_)
          fun _ _ _ _ => by simp
        exact (List.mem_cons.mp ht).imp_right List.mem_singleton.mp
      · rename_i hnone
        refine h.reshape (.refl s) (.refl s) (fun _ => rfl) (by simp) fun r' m hm htakes => ?_
        obtain ⟨rfl, hpk⟩ := htakes
        simpa [hpk] using eq_false_of_not_found hnone hm
  | demote c => exact hmay.elim
  | loosen r fk => exact hmay.elim

end Withering

/-! ## What has become of a schema -/

/-- What the going of the stray mappings comes to: exactly the columns that wither are gone, and
exactly the strays and the mappings of these columns. -/
structure Withered (stray : RelationshipId → Mapping → Prop) (s s' : Schema) : Prop where
  sound : s'.Sound
  shrinks : Shrinks s s'
  gone_iff : ∀ c, s.columns.contains c = true →
    (s'.columns.contains c = false ↔ s.Withers stray c)
  unmapped_iff : ∀ r m, s.isLive r = true → m ∈ s.mappingsOf r →
    (m ∉ s'.mappingsOf r ↔ stray r m ∨ s.Withers stray m.pk)

theorem MayWither.justified {spared : ColumnId → Prop} (h : MayWither stray s task) :
    Justified spared (fun c => s.isRetained c = true) s task := by
  cases task with
  | check c => exact h
  | remove c => exact .inr (Withers.isRetained h)
  | unmap r pk => exact h.1
  | sweep r key => exact h.1
  | _ => trivial

/-- A run from the beginning to the end. -/
theorem Sound.withering (hs : s.Sound) (hmay : ∀ task ∈ tasks, MayWither stray s task)
    (hpending : ∀ r m, s.isLive r = true → m ∈ s.mappingsOf r → stray r m →
      ∃ task ∈ tasks, task.Takes r m)
    (hw : WorksOff Prune.step tasks s s') : Withering stray s [] s' := by
  apply hw.invariant_all (J := Withering stray s) (fun _ _ _ h => h.step hs)
  refine ⟨hs, .refl s, fun c hc hc' => ?_, fun _ _ _ hm hout => absurd hm hout, fun _ _ => rfl,
    hmay, hpending⟩
  exact absurd (hc.symm.trans hc') Bool.noConfusion

/-- Working off tasks that take out exactly the stray mappings withers what these leave. -/
theorem Sound.withered (hs : s.Sound) (hmay : ∀ task ∈ tasks, MayWither stray s task)
    (hpending : ∀ r m, s.isLive r = true → m ∈ s.mappingsOf r → stray r m →
      ∃ task ∈ tasks, task.Takes r m)
    (hw : WorksOff Prune.step tasks s s') : Withered stray s s' := by
  have hend := hs.withering hmay hpending hw
  have haccounts : Accounts (fun _ => False) s s' :=
    hs.accounts_prune hw fun task ht => (hmay task ht).justified
  have hout : ∀ r m, s.isLive r = true → m ∈ s'.mappingsOf r → ¬ stray r m := by
    intro r m hl hm hstray
    rcases hend.pending r m hl hm hstray with ⟨task, ht, -⟩
    exact absurd ht List.not_mem_nil
  -- a column that withers and stayed would have kept a mapping, whose parent column is gone
  have hgone : ∀ c, s.Withers stray c → s'.columns.contains c = false := by
    intro c hc
    induction hc with
    | @intro c mapped _ ih =>
        apply Bool.eq_false_iff.mpr
        intro hstay
        have hret := haccounts.left c mapped hstay
        rcases (hend.sound.isRetained_iff c).mp hret with ⟨r, hl', m, hm, hfk⟩
        have hl := (hend.shrinks.frame.isLive r).symm.trans hl'
        have hpk := ih r m hl (hend.shrinks.mappingsOf r hm) hfk (hout r m hl hm)
        exact absurd (hpk.symm.trans (hend.sound.pk_stored hm)) Bool.noConfusion
  refine ⟨hend.sound, hend.shrinks, fun c hc => ⟨hend.gone c hc, hgone c⟩,
    fun r m hl hm => ⟨hend.unmapped r m hl hm, ?_⟩⟩
  rintro (hstray | hpk) hm'
  · exact hout r m hl hm' hstray
  · exact absurd ((hgone m.pk hpk).symm.trans (hend.sound.pk_stored hm')) Bool.noConfusion

/-- A change of ranks withers nothing. -/
theorem SameShape.withered (h : SameShape s s') (hs : s.Sound) (hsh : Shrinks s s') :
    Withered (fun _ _ => False) s s' := by
  have hnone : ∀ c, ¬ s.Withers (fun _ _ => False) c := fun c hc => by
    rcases hc.exists_stray hs with ⟨_, _, -, -, hno⟩
    exact hno
  refine ⟨hs.of_sameShape h, hsh, fun c hc => ?_, fun r m _ hm => ?_⟩
  · rw [h.contains_column, hc]
    exact iff_of_false Bool.noConfusion (hnone c)
  · exact iff_of_false (not_not.mpr (h.mem_mappingsOf.mpr hm)) (by simp [hnone])

namespace Withered

theorem gone (h : Withered stray s s') (hc : s.Withers stray c) (hs : s.Sound) :
    s'.columns.contains c = false :=
  (h.gone_iff c (hs.stored_of_isRetained hc.isRetained)).mpr hc

/-- A mapping of a live relationship stays if it is no stray and its parent column stays. -/
theorem mem_mappingsOf_iff (h : Withered stray s s') (hs : s.Sound) (hl : s.isLive r = true)
    (hm : m ∈ s.mappingsOf r) :
    m ∈ s'.mappingsOf r ↔ ¬ stray r m ∧ s'.columns.contains m.pk = true := by
  have hiff := not_congr (h.unmapped_iff r m hl hm)
  rw [not_not, not_or, ← h.gone_iff m.pk (hs.pk_stored hm), Bool.not_eq_false] at hiff
  exact hiff

/-- A column that stays and was mapped is mapped. -/
theorem isRetained (h : Withered stray s s') (hs : s.Sound) (hc : s.isRetained c = true)
    (hc' : s'.columns.contains c = true) : s'.isRetained c = true := by
  have hstays : ¬ s.Withers stray c := fun hgoes =>
    absurd ((h.gone hgoes hs).symm.trans hc') Bool.noConfusion
  -- of its mappings one is no stray, and comes from a column that stays
  have hkept : ∃ r m, s.isLive r = true ∧ m ∈ s.mappingsOf r ∧ m.fk = c ∧
      ¬ (stray r m ∨ s.Withers stray m.pk) := by
    by_contra hno
    apply hstays
    apply Withers.intro hc
    intro r m hl hm hfk hstray
    by_contra hpk
    exact hno ⟨r, m, hl, hm, hfk, not_or.mpr ⟨hstray, hpk⟩⟩
  rcases hkept with ⟨r, m, hl, hm, hfk, hin⟩
  have hm' : m ∈ s'.mappingsOf r := not_not.mp (mt (h.unmapped_iff r m hl hm).mp hin)
  exact (h.sound.isRetained_iff c).mpr ⟨r, (h.shrinks.frame.isLive r).trans hl, m, hm', hfk⟩

/-- Strays may be passed over if their parent columns go anyway. -/
theorem congr (h : Withered stray s s')
    (himp : ∀ r m, s.isLive r = true → m ∈ s.mappingsOf r → stray r m → stray' r m)
    (himp' : ∀ r m, s.isLive r = true → m ∈ s.mappingsOf r → stray' r m →
      stray r m ∨ s.Withers stray m.pk) : Withered stray' s s' := by
  have hiff : ∀ c, s.Withers stray c ↔ s.Withers stray' c := fun c =>
    ⟨fun hc => hc.imp fun r m hl hm hstray => .inl (himp r m hl hm hstray), fun hc => hc.imp himp'⟩
  refine ⟨h.sound, h.shrinks, fun c hc => (h.gone_iff c hc).trans (hiff c), fun r m hl hm => ?_⟩
  rw [h.unmapped_iff r m hl hm, hiff]
  constructor
  · exact Or.imp_left (himp r m hl hm)
  · rintro (hstray | hpk)
    · exact (himp' r m hl hm hstray).imp_right (hiff m.pk).mp
    · exact .inr hpk

/-- What goes in two runs, one after the other, is what their strays wither together. -/
theorem trans (h : Withered stray s s') (h' : Withered stray' s' s'') (hs : s.Sound) :
    Withered (fun r m => stray r m ∨ stray' r m) s s'' := by
  have hfirst : ∀ c, s.Withers stray c → s.Withers (fun r m => stray r m ∨ stray' r m) c :=
    fun c hc => hc.imp fun _ _ _ _ hstray => .inl (.inl hstray)
  -- what the second run withers, both wither: its columns are those that the first one has left
  have hsecond : ∀ c, s'.Withers stray' c → s.Withers (fun r m => stray r m ∨ stray' r m) c := by
    intro c hc
    induction hc with
    | @intro c mapped _ ih =>
        apply Withers.intro (h.shrinks.isRetained hs h.sound mapped)
        intro r m hl hm hfk hno
        by_cases hm' : m ∈ s'.mappingsOf r
        · exact ih r m ((h.shrinks.frame.isLive r).trans hl) hm' hfk fun hstray => hno (.inr hstray)
        · have hout := (h.unmapped_iff r m hl hm).mp hm'
          exact hfirst m.pk (hout.resolve_left fun hstray => hno (.inl hstray))
  have hboth : ∀ c, s.Withers (fun r m => stray r m ∨ stray' r m) c →
      s''.columns.contains c = false := by
    intro c hc
    induction hc with
    | @intro c mapped _ ih =>
        cases hc' : s'.columns.contains c with
        | false =>
            apply Bool.eq_false_iff.mpr
            exact fun hc'' => absurd (hc'.symm.trans (h'.shrinks.contains hc'')) Bool.noConfusion
        | true =>
            apply h'.gone _ h.sound
            apply Withers.intro (h.isRetained hs mapped hc')
            intro r m hl' hm' hfk hno'
            have hl := (h.shrinks.frame.isLive r).symm.trans hl'
            have hm := h.shrinks.mappingsOf r hm'
            have hno : ¬ stray r m := ((h.mem_mappingsOf_iff hs hl hm).mp hm').1
            have hpk := ih r m hl hm hfk (not_or.mpr ⟨hno, hno'⟩)
            exact (h'.gone_iff m.pk (h.sound.pk_stored hm')).mp hpk
  refine ⟨h'.sound, h.shrinks.trans h'.shrinks, fun c hc => ⟨fun hc'' => ?_, hboth c⟩,
    fun r m hl hm => ⟨fun hout => ?_, ?_⟩⟩
  · cases hc' : s'.columns.contains c with
    | false => exact hfirst c ((h.gone_iff c hc).mp hc')
    | true => exact hsecond c ((h'.gone_iff c hc').mp hc'')
  · by_cases hm' : m ∈ s'.mappingsOf r
    · have hl' := (h.shrinks.frame.isLive r).trans hl
      exact ((h'.unmapped_iff r m hl' hm').mp hout).imp .inr (hsecond m.pk)
    · exact ((h.unmapped_iff r m hl hm).mp hm').imp .inl (hfirst m.pk)
  · rintro ((hstray | hstray) | hpk) hm''
    · exact ((h.mem_mappingsOf_iff hs hl hm).mp (h'.shrinks.mappingsOf r hm'')).1 hstray
    · have hl' := (h.shrinks.frame.isLive r).trans hl
      have hm' := h'.shrinks.mappingsOf r hm''
      exact ((h'.mem_mappingsOf_iff h.sound hl' hm').mp hm'').1 hstray
    · exact absurd ((hboth m.pk hpk).symm.trans (h'.sound.pk_stored hm'')) Bool.noConfusion

/-- Changes of ranks before and after a run wither nothing more. -/
theorem amid {s₁ s₂ : Schema} (h : Withered stray s₁ s₂) (hs : s.Sound) (hfirst : SameShape s s₁)
    (hsh : Shrinks s s₁) (hlast : SameShape s₂ s') (hsh' : Shrinks s₂ s') :
    Withered stray s s' := by
  have hwhole := ((hfirst.withered hs hsh).trans h hs).trans (hlast.withered h.sound hsh') hs
  apply hwhole.congr
  · rintro r m - - ((hno | hstray) | hno)
    · exact hno.elim
    · exact hstray
    · exact hno.elim
  · exact fun r m _ _ hstray => .inl (.inl (.inr hstray))

end Withered

end Schema

end KeyedSchema
