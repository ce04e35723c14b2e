import KeyedSchema.Proofs.Growing
import KeyedSchema.Proofs.Mirror
import KeyedSchema.Proofs.Pruning

/-!
# Upkeep — cascades restore what they disturb

While cascades run, what is amiss between keys and mappings is what the tasks are about that are
left: a stray mapping is still to be taken out, a missing one to be made, a relationship to be
ordered, a key to be numbered. One task keeps this up, and when all tasks are worked off nothing is
amiss.

- `Trims` : removals and demotions, in a schema whose tables all cascade;
- `Tends` : promotions, where tables that do not cascade are left to be caught up with.
-/

namespace KeyedSchema

namespace Schema

variable {s s' : Schema} {t : TableId} {c : ColumnId} {r : RelationshipId}

/-- Whether the cascades of every table are enabled. -/
def Awake (s : Schema) : Prop := ∀ t, s.tables.contains t = true → s.cascades t = true

theorem Awake.frame (h : Awake s) (hf : SameFrame s s') : Awake s' := fun t ht =>
  (hf.cascades t).trans (h t (hf.contains_table t ▸ ht))

theorem Sound.cascades_of_owner? (hs : s.Sound) (h : Awake s) (ho : s.owner? c = some t) :
    s.cascades t = true := by
  obtain ⟨tbl, htbl⟩ := hs.table_of_owner ho
  exact h t (Roster.contains_of_get? htbl)

/-- A table that is not in the schema has a numbered key. -/
theorem numbered_of_not_contains (ht : s.tables.contains t = false) : s.Numbered t := by
  refine numbered_of_columnsOf ?_
  unfold columnsOf
  rw [(Roster.contains_eq_false_iff _ _).mp ht]
  rfl

/-! ## Removals and demotions -/

section

variable {task : Prune} {tasks new : List Prune} {debt : RelationshipId → ColumnId → Prop}

/-- Whether a task may come up: only columns without a live mapping are removed, and only mappings
of former key columns are taken out. -/
def Trimmable (s : Schema) : Prune → Prop
  | .remove c => s.isRetained c = false
  | .unmap _ x => s.isKey x = false
  | .sweep _ _ => False
  | _ => True

/-- What is amiss is what is left to do, but for mappings that are owed all the time. -/
structure Trims (debt : RelationshipId → ColumnId → Prop) (tasks : List Prune) (s : Schema) :
    Prop where
  sound : s.Sound
  awake : Awake s
  mirrors : Mirrors (fun r x => .unmap r x ∈ tasks) debt (fun _ => False)
    (fun t => .number t ∈ tasks) s
  may : ∀ task ∈ tasks, Trimmable s task

theorem Trimmable.shrinks (h : Trimmable s task) (hs : s.Sound) (hs' : s'.Sound)
    (hsh : Shrinks s s') : Trimmable s' task := by
  cases task with
  | remove c =>
      have h : s.isRetained c = false := h
      change s'.isRetained c = false
      rw [Bool.eq_false_iff] at h ⊢
      exact fun hc => h (hsh.isRetained hs hs' hc)
  | unmap r x =>
      have h : s.isKey x = false := h
      change s'.isKey x = false
      rw [Bool.eq_false_iff] at h ⊢
      exact fun hx => h (hsh.isKey x hx)
  | sweep r key => exact h
  | _ => trivial

/-- A task is worked off if what is amiss afterwards is in the new tasks or in those left. -/
theorem Trims.advance (h : Trims debt (task :: tasks) s) (new : List Prune) (hs' : s'.Sound)
    (hsh : Shrinks s s')
    (hm : Mirrors (fun r x => .unmap r x ∈ new ++ tasks) debt (fun _ => False)
      (fun t => .number t ∈ new ++ tasks) s')
    (hnew : ∀ task' ∈ new, Trimmable s' task') : Trims debt (new ++ tasks) s' where
  sound := hs'
  awake := h.awake.frame hsh.frame
  mirrors := hm
  may task' ht := by
    rcases List.mem_append.mp ht with ht | ht
    · exact hnew task' ht
    · exact (h.may task' (List.mem_cons_of_mem _ ht)).shrinks h.sound hs' hsh

/-- What is left of the tasks when the first one is done. -/
theorem mem_append_of_cons {τ : Type} {x y : τ} {xs ys : List τ} (h : x ∈ y :: xs) (hne : x ≠ y) :
    x ∈ ys ++ xs := List.mem_append_right _ (List.mem_of_ne_of_mem hne h)

/-- A task that changes nothing and is not about anything amiss. -/
theorem Trims.skip (h : Trims debt (task :: tasks) s) (new : List Prune)
    (hunmap : ∀ r x, task ≠ .unmap r x)
    (hnumber : ∀ t, task ≠ .number t) (hnew : ∀ task' ∈ new, Trimmable s task') :
    Trims debt (new ++ tasks) s :=
  h.advance _ h.sound (.refl s) (h.mirrors.mono
    (fun r m _ _ hin => mem_append_of_cons hin (hunmap r m.pk).symm) (fun _ _ _ _ _ _ _ h => h)
    (fun _ _ h => h) fun t hin => mem_append_of_cons hin (hnumber t).symm) hnew

theorem Trims.cut (h : Trims debt (.remove c :: tasks) s) (hc : s.columns.contains c = true) :
    Trims debt (Prune.afterCut s c ++ tasks) (s.cut c) := by
  have hcut := h.mirrors.cut h.sound hc (h.may _ (List.mem_cons_self ..))
  refine h.advance _ (h.sound.cut hc) (h.sound.shrinks_cut hc) (hcut.mono
    (fun r m _ _ hin => mem_append_of_cons hin (by simp)) (fun _ _ _ _ _ _ _ h => h)
    (fun _ _ h => h) fun t hgap => ?_) fun task' ht => ?_
  · rcases hgap with hin | ⟨hkey, ho⟩
    · exact mem_append_of_cons hin (by simp)
    · exact List.mem_append_left _ (List.mem_append_right _ (by simp [hkey, ho]))
  · rcases h.sound.mem_afterCut ht with ⟨f, rfl, -⟩ | ⟨t, rfl⟩
    · trivial
    · trivial

theorem Trims.number (h : Trims debt (.number t :: tasks) s) :
    Trims debt tasks (if s.cascades t then s.normalizeKey t none else s) := by
  cases hx : s.cascades t with
  | true =>
      have hnum := h.mirrors.normalizeKey h.sound t none
      refine h.advance [] ((reranks_normalizeKey t none s).sound h.sound)
        (h.sound.shrinks_normalizeKey t none) (hnum.mono
          (fun r m _ _ hin => mem_append_of_cons hin (by simp)) (fun _ _ _ _ _ _ _ h => h)
          (fun _ _ h => h.1) fun t' hin => ?_) (by simp)
      exact mem_append_of_cons hin.1 fun heq => hin.2 (Prune.number.inj heq)
  | false =>
      -- a table that does not cascade is not there
      have ht : s.tables.contains t = false := by
        rw [Bool.eq_false_iff]
        intro ht
        rw [h.awake t ht] at hx
        exact Bool.noConfusion hx
      have hnum : ∀ t', s.Numbered t' ∨ .number t' ∈ tasks := by
        intro t'
        by_cases heq : t' = t
        · exact .inl (heq ▸ numbered_of_not_contains ht)
        · exact (h.mirrors.numbered t').imp_right fun hin =>
            List.mem_of_ne_of_mem (fun h' => heq (Prune.number.inj h')) hin
      exact h.advance [] h.sound (.refl s) ⟨fun r m hl hm =>
        (h.mirrors.straight r m hl hm).imp_right fun hin => mem_append_of_cons hin (by simp),
        h.mirrors.complete, h.mirrors.ordered, hnum⟩ (by simp)

theorem Trims.demote {k : Nat} (h : Trims debt (.demote c :: tasks) s) (ho : s.owner? c = some t)
    (hrank : s.rank? c = some k) :
    Trims debt ((s.liveExportsOf t).map (fun r => .unmap r c) ++ tasks)
      ((s.changeRank c (some k) none).normalizeKey t none) := by
  have hc := contains_of_owner? ho
  have hre := reranks_changeRank c (some k) none s
  have hs₁ := hre.sound h.sound
  have hkey : s.isKey c = true := isKey_iff.mpr ⟨k, hrank⟩
  refine h.advance _ ((reranks_normalizeKey t none _).sound hs₁)
    ((shrinks_changeRank hc (some k)).trans (hs₁.shrinks_normalizeKey t none))
    (Mirrors.mono ((h.mirrors.changeRank h.sound ho (some k) none).normalizeKey hs₁ t none)
      (fun r m hl hm hin => ?_) (fun r p x _ _ _ _ hin => ?_) (fun r _ hin => ?_)
      fun t' hin => ?_) fun task' ht => ?_
  · have hre₂ := hre.trans (reranks_normalizeKey t none _)
    rcases hin with hin | ⟨heq, -⟩
    · exact mem_append_of_cons hin (by simp)
    · -- the relationships that map the column are live exports of its table
      obtain ⟨p, -, hp, -, hpk, -⟩ := h.sound.mapped r m ((hre₂.mappingsOf r).mem_iff.mp hm)
      rw [heq, ho] at hpk
      obtain rfl := Option.some.inj hpk
      rw [heq]
      exact List.mem_append_left _ (List.mem_map_of_mem
        ((h.sound.mem_liveExportsOf_iff r t).mpr ⟨hre₂.sameFrame.isLive r ▸ hl, hp⟩))
  · rcases hin with hin | ⟨-, hnot⟩
    · exact hin
    · rw [hkey] at hnot
      exact absurd hnot Bool.noConfusion
  · exact hin.2 ((hre.sameFrame.parent? r).trans (hin.1.resolve_left id))
  · rcases hin.1 with hin' | heq
    · exact mem_append_of_cons hin' (by simp)
    · exact absurd heq hin.2
  · obtain ⟨r, -, rfl⟩ := List.mem_map.mp ht
    change Schema.isKey _ c = false
    rw [hs₁.isKey_normalizeKey]
    unfold isKey
    rw [rank?_changeRank c _ _ s hc, if_pos rfl]
    rfl

/-- Every task that may come up is worked off. -/
theorem Trims.step (h : Trims debt (task :: tasks) s) :
    Trims debt ((task.step s).1 ++ tasks) (task.step s).2 := by
  have hmay := h.may task (List.mem_cons_self ..)
  cases task with
  | check c =>
      refine h.skip _ (by simp) (by simp) fun task' ht => ?_
      simp only [Prune.step] at ht
      split at ht
      · rename_i hcond
        obtain rfl := List.mem_singleton.mp ht
        rw [Bool.and_eq_true, Bool.not_eq_true'] at hcond
        exact hcond.2
      · simp at ht
  | remove c =>
      cases hc : s.columns.contains c with
      | true => exact h.cut hc
      | false =>
          rw [h.sound.step_remove_of_not_contains hc]
          exact h.skip [] (by simp) (by simp) (by simp)
  | number t => exact h.number
  | unmap r x =>
      simp only [Prune.step]
      split
      · rename_i i m hi hm
        have hun := unmaps_removeMappingAt r m i s
        refine h.advance _ (h.sound.of_unmaps hun) hun.shrinks
          ((h.mirrors.removeMapping h.sound hi hm hmay).mono (fun r' m' _ _ hin => ?_)
            (fun _ _ _ _ _ _ _ h => h) (fun _ _ h => h)
            fun t hin => mem_append_of_cons hin (by simp)) fun task' ht => ?_
        · exact mem_append_of_cons hin.1 fun heq => hin.2 (Prune.unmap.inj heq)
        · obtain rfl := List.mem_singleton.mp ht
          trivial
      · rename_i hnone
        refine h.advance [] h.sound (.refl s) (h.mirrors.mono (fun r' m hl hm hin => ?_)
          (fun _ _ _ _ _ _ _ h => h) (fun _ _ h => h)
          fun t hin => mem_append_of_cons hin (by simp)) (by simp)
        refine mem_append_of_cons hin fun heq => ?_
        obtain ⟨rfl, hpk⟩ := Prune.unmap.inj heq
        simpa [hpk] using eq_false_of_not_found hnone hm
  | demote c =>
      simp only [Prune.step]
      split
      · rename_i t k ho hrank
        rw [if_pos (h.sound.cascades_of_owner? h.awake ho)]
        exact h.demote ho hrank
      · exact h.skip [] (by simp) (by simp) (by simp)
  | loosen r fk =>
      refine h.skip _ (by simp) (by simp) fun task' ht => ?_
      simp only [Prune.step] at ht
      split at ht
      · obtain rfl := List.mem_singleton.mp ht
        trivial
      · simp at ht
  | sweep r key => exact hmay.elim

/-- At the end of a run nothing is amiss but what is owed all the time. -/
theorem MirrorsBut.prune (hm : MirrorsBut debt s) (hs : s.Sound) (ha : Awake s)
    (hmay : ∀ task ∈ tasks, Trimmable s task) (hw : WorksOff Prune.step tasks s s') :
    MirrorsBut debt s' := by
  have hstart : Trims debt tasks s := ⟨hs, ha, hm.mono (fun _ _ _ _ h => h.elim)
    (fun _ _ _ _ _ _ _ h => h) (fun _ _ h => h) (fun _ h => h.elim), hmay⟩
  have hend := hw.invariant_all (J := Trims debt) (fun _ _ _ h => h.step) hstart
  exact hend.mirrors.mono (fun _ _ _ _ h => by simp at h) (fun _ _ _ _ _ _ _ h => h)
    (fun _ _ h => h) fun _ h => by simp at h

end

/-! ## Promotions -/

section

variable {task : Grow} {tasks new : List Grow} {debt : RelationshipId → ColumnId → Prop}
  {loose : TableId → Prop}

/-- Whether a task may come up: only key columns join a key, and live relationships map only key
columns of their parent. -/
def Tendable (s : Schema) : Grow → Prop
  | .promote _ c => s.columns.contains c = true
  | .join _ c => s.isKey c = true
  | .map _ r x => s.isLive r = true ∧ s.isKey x = true ∧ ∃ p, s.parent? r = some p ∧
      s.owner? x = some p
  | .sync _ => True

theorem Tendable.ready (h : Tendable s task) : task.Ready s := by
  cases task with
  | promote depth c => exact h
  | join depth c => exact contains_of_isKey h
  | map depth r x =>
      obtain ⟨hl, -, p, hp, ho⟩ := h
      obtain ⟨-, ch, -, hch, -⟩ := isLive_iff.mp hl
      exact ⟨p, ch, hp, hch, ho⟩
  | sync r => trivial

theorem Tendable.grows (h : Tendable s task) (hg : Grows s s') : Tendable s' task := by
  cases task with
  | promote depth c => exact hg.contains h
  | join depth c => exact hg.isKey h
  | map depth r x =>
      obtain ⟨hl, hk, p, hp, ho⟩ := h
      exact ⟨(hg.frame.isLive r).trans hl, hg.isKey hk, p, (hg.frame.parent? r).trans hp,
        (hg.owner? (contains_of_owner? ho)).trans ho⟩
  | sync r => trivial

/-- Whether a mapping may be missing: it is left for later, or a task is about it. -/
def Owed (debt : RelationshipId → ColumnId → Prop) (tasks : List Grow) (r : RelationshipId)
    (x : ColumnId) : Prop :=
  debt r x ∨ (∃ depth, .map depth r x ∈ tasks) ∨ ∃ depth, .join depth x ∈ tasks

/-- Whether a key may have gaps or ties: it is left for later, or a column still joins it. -/
def Gapped (loose : TableId → Prop) (tasks : List Grow) (s : Schema) (t : TableId) : Prop :=
  loose t ∨ ∃ depth x, .join depth x ∈ tasks ∧ s.owner? x = some t

/-- Whether a relationship may be out of order. -/
def Untidy (loose : TableId → Prop) (tasks : List Grow) (s : Schema) (r : RelationshipId) : Prop :=
  .sync r ∈ tasks ∨ ∃ t, s.parent? r = some t ∧ Gapped loose tasks s t

/-- What is amiss is what is left to do, or concerns tables that do not cascade. -/
structure Tends (debt : RelationshipId → ColumnId → Prop) (loose : TableId → Prop)
    (tasks : List Grow) (s : Schema) : Prop where
  sound : s.Sound
  asleep : ∀ t, s.tables.contains t = true → s.cascades t = false →
    loose t ∧ ∀ r x, s.parent? r = some t → debt r x
  mirrors : Mirrors (fun _ _ => False) (Owed debt tasks) (Untidy loose tasks s)
    (Gapped loose tasks s) s
  may : ∀ task ∈ tasks, Tendable s task

theorem Owed.grow (h : Owed debt (task :: tasks) r c)
    (hmap : ∀ depth, task = .map depth r c → Owed debt (new ++ tasks) r c)
    (hjoin : ∀ depth, task = .join depth c → Owed debt (new ++ tasks) r c) :
    Owed debt (new ++ tasks) r c := by
  rcases h with h | ⟨depth, h⟩ | ⟨depth, h⟩
  · exact .inl h
  · rcases List.mem_cons.mp h with heq | h
    · exact hmap depth heq.symm
    · exact .inr (.inl ⟨depth, List.mem_append_right _ h⟩)
  · rcases List.mem_cons.mp h with heq | h
    · exact hjoin depth heq.symm
    · exact .inr (.inr ⟨depth, List.mem_append_right _ h⟩)

/-- A column that joins a key keeps its table, so gaps stay accounted for. -/
theorem Gapped.grow (h : Gapped loose (task :: tasks) s t)
    (hmay : ∀ task' ∈ task :: tasks, Tendable s task') (hg : Grows s s')
    (hjoin : ∀ depth x, task = .join depth x → s.owner? x = some t → Gapped loose (new ++ tasks) s' t) :
    Gapped loose (new ++ tasks) s' t := by
  rcases h with h | ⟨depth, x, h, ho⟩
  · exact .inl h
  · rcases List.mem_cons.mp h with heq | hin
    · exact hjoin depth x heq.symm ho
    · refine .inr ⟨depth, x, List.mem_append_right _ hin, ?_⟩
      rw [hg.owner? (contains_of_isKey (hmay _ h)), ho]

theorem Untidy.grow (h : Untidy loose (task :: tasks) s r)
    (hmay : ∀ task' ∈ task :: tasks, Tendable s task')
    (hg : Grows s s') (hsync : task = .sync r → Untidy loose (new ++ tasks) s' r)
    (hjoin : ∀ depth x t, s.parent? r = some t → task = .join depth x → s.owner? x = some t →
      Gapped loose (new ++ tasks) s' t) : Untidy loose (new ++ tasks) s' r := by
  rcases h with h | ⟨t, hp, h⟩
  · rcases List.mem_cons.mp h with heq | h
    · exact hsync heq.symm
    · exact .inl (List.mem_append_right _ h)
  · exact .inr ⟨t, (hg.frame.parent? r).trans hp, h.grow hmay hg fun depth x => hjoin depth x t hp⟩

/-- A task is worked off if what is amiss afterwards is in the new tasks or in those left. -/
theorem Tends.advance (h : Tends debt loose (task :: tasks) s) (new : List Grow) (hs' : s'.Sound)
    (hg : Grows s s')
    (hm : Mirrors (fun _ _ => False) (Owed debt (new ++ tasks)) (Untidy loose (new ++ tasks) s')
      (Gapped loose (new ++ tasks) s') s')
    (hnew : ∀ task' ∈ new, Tendable s' task') : Tends debt loose (new ++ tasks) s' where
  sound := hs'
  asleep t ht hx := by
    rw [hg.frame.contains_table] at ht
    rw [hg.frame.cascades] at hx
    obtain ⟨hloose, hdebt⟩ := h.asleep t ht hx
    exact ⟨hloose, fun r x hp => hdebt r x (hg.frame.parent? r ▸ hp)⟩
  mirrors := hm
  may task' ht := by
    rcases List.mem_append.mp ht with ht | ht
    · exact hnew task' ht
    · exact (h.may task' (List.mem_cons_of_mem _ ht)).grows hg

/-- A promotion that does nothing. -/
theorem Tends.skip {depth : Nat} (h : Tends debt loose (.promote depth c :: tasks) s) :
    Tends debt loose tasks s :=
  h.advance [] h.sound (.refl s) (h.mirrors.mono (fun _ _ _ _ h => h)
    (fun _ _ _ _ _ _ _ ho => ho.grow (by simp) (by simp))
    (fun _ _ hu => hu.grow h.may (.refl s) (by simp) (by simp))
    fun _ hg => hg.grow h.may (.refl s) (by simp)) (by simp)

/-- A column that gets a rank is about to join its key. -/
theorem Tends.rank {depth depth' : Nat} {k : Nat}
    (h : Tends debt loose (.promote depth' c :: tasks) s) (ho : s.owner? c = some t) :
    Tends debt loose (.join depth c :: tasks) (s.changeRank c none (some k)) := by
  have hc := contains_of_owner? ho
  have hg := grows_changeRank hc none k
  have hre := reranks_changeRank c none (some k) s
  have hgap : Gapped loose ([.join depth c] ++ tasks) (s.changeRank c none (some k)) t :=
    .inr ⟨depth, c, List.mem_cons_self .., (hre.owner? c).trans ho⟩
  refine h.advance [.join depth c] (hre.sound h.sound) hg
    ((h.mirrors.changeRank h.sound ho none (some k)).mono (fun r m _ _ hin => ?_)
      (fun r p x _ _ _ _ hin => ?_) (fun r _ hin => ?_) fun t' hin => ?_) fun task' ht => ?_
  · exact hin.resolve_right (by simp)
  -- until the column joins, it may be missing and its key out of order
  · rcases hin with hin | ⟨rfl, -⟩
    · exact hin.grow (by simp) (by simp)
    · exact .inr (.inr ⟨depth, List.mem_cons_self ..⟩)
  · rcases hin with hin | hp
    · exact hin.grow h.may hg (by simp) (by simp)
    · exact .inr ⟨t, (hre.sameFrame.parent? r).trans hp, hgap⟩
  · rcases hin with hin | rfl
    · exact hin.grow h.may hg (by simp)
    · exact hgap
  · obtain rfl := List.mem_singleton.mp ht
    refine isKey_iff.mpr ⟨k, ?_⟩
    rw [rank?_changeRank c none (some k) s hc, if_pos rfl]

/-- A column joins the key of a table that cascades: the key is numbered, and every relationship is
to map the column. -/
theorem Tends.join {depth : Nat} (h : Tends debt loose (.join depth c :: tasks) s)
    (ho : s.owner? c = some t) :
    Tends debt loose ((s.liveExportsOf t).map (fun r => .map depth r c) ++ tasks)
      (s.normalizeKey t (some c)) := by
  have hkey : s.isKey c = true := h.may _ (List.mem_cons_self ..)
  have hg := h.sound.grows_normalizeKey t (some c)
  have hre := reranks_normalizeKey t (some c) s
  have hjoined : ∀ {depth' x t'}, Grow.join depth c = .join depth' x → s.owner? x = some t' →
      t' = t := by
    intro depth' x t' heq hx
    obtain ⟨-, rfl⟩ := Grow.join.inj heq
    exact Option.some.inj (hx.symm.trans ho)
  refine h.advance _ (hre.sound h.sound) hg ((h.mirrors.normalizeKey h.sound t (some c)).mono
    (fun _ _ _ _ h => h) (fun r p x hl hp hx _ hin => ?_) (fun r _ hin => ?_) fun t' hin => ?_)
    fun task' ht => ?_
  -- what was missing because of the joining is now a task of its own
  · refine hin.grow (by simp) fun depth' heq => ?_
    obtain ⟨rfl, rfl⟩ := Grow.join.inj heq
    rw [hre.sameFrame.isLive] at hl
    rw [hre.sameFrame.parent?] at hp
    rw [hre.owner?, ho] at hx
    refine .inr (.inl ⟨depth, List.mem_append_left _ (List.mem_map.mpr ⟨r, ?_, rfl⟩)⟩)
    exact (h.sound.mem_liveExportsOf_iff r t).mpr ⟨hl, hx ▸ hp⟩
  · refine hin.1.grow h.may hg (by simp) fun depth' x t' hp heq hx => ?_
    exact absurd (hjoined heq hx ▸ hp) hin.2
  · exact hin.1.grow h.may hg fun depth' x heq hx => absurd (hjoined heq hx) hin.2
  · obtain ⟨r, hr, rfl⟩ := List.mem_map.mp ht
    obtain ⟨hl, hp⟩ := (h.sound.mem_liveExportsOf_iff r t).mp hr
    exact ⟨(hre.sameFrame.isLive r).trans hl, hg.isKey hkey, t, (hre.sameFrame.parent? r).trans hp,
      (hre.owner? c).trans ho⟩

/-- A column joins the key of a table that does not cascade: that is left for later. -/
theorem Tends.joinAsleep {depth : Nat} (h : Tends debt loose (.join depth c :: tasks) s)
    (ho : s.owner? c = some t) (hx : s.cascades t = false) : Tends debt loose tasks s := by
  obtain ⟨tbl, htbl⟩ := h.sound.table_of_owner ho
  obtain ⟨hloose, hdebt⟩ := h.asleep t (Roster.contains_of_get? htbl) hx
  have hgap : ∀ {depth' x t'}, Grow.join depth c = .join depth' x → s.owner? x = some t' →
      Gapped loose ([] ++ tasks) s t' := by
    intro depth' x t' heq hx
    obtain ⟨-, rfl⟩ := Grow.join.inj heq
    obtain rfl := Option.some.inj (hx.symm.trans ho)
    exact .inl hloose
  refine h.advance [] h.sound (.refl s) (h.mirrors.mono (fun _ _ _ _ h => h)
    (fun r p x _ hp hx _ hin => ?_) (fun r _ hin => ?_) fun t' hin => ?_) (by simp)
  · refine hin.grow (by simp) fun depth' heq => .inl (hdebt r x ?_)
    obtain ⟨-, rfl⟩ := Grow.join.inj heq
    rw [hp, ← hx, ho]
  · exact hin.grow h.may (.refl s) (by simp) fun _ _ _ _ => hgap
  · exact hin.grow h.may (.refl s) fun _ _ => hgap

/-- A relationship maps a key column. -/
theorem Tends.map {depth : Nat} {x : ColumnId} (h : Tends debt loose (.map depth r x :: tasks) s)
    (hnew : x ∉ (s.mappingsOf r).map Mapping.pk) :
    Tends debt loose ((if s.isIdentifying r then [.promote depth (s.mapColumn r x).1, .sync r]
      else [.sync r]) ++ tasks) (s.mapColumn r x).2 := by
  obtain ⟨hl, hkey, p, hp, ho⟩ := h.may _ (List.mem_cons_self ..)
  obtain ⟨-, ch, -, hch, -⟩ := isLive_iff.mp hl
  obtain ⟨s₁, hmaps⟩ := h.sound.mapColumn hch ho
  obtain ⟨hs', hg, hfk⟩ := hmaps.sound h.sound hp hch ho hnew
  obtain ⟨hs₁, hg₁, -⟩ := hmaps.place_sound h.sound hch
  -- the child column comes first, and is not in a key
  have hplaced : Mirrors (fun _ _ => False) (Owed debt (.map depth r x :: tasks))
      (Untidy loose (.map depth r x :: tasks) s) (Gapped loose (.map depth r x :: tasks) s) s₁ := by
    rcases hmaps.place with ⟨rfl, -⟩ | ⟨-, i, hi, key, -, rfl⟩
    · exact h.mirrors
    · have hplain : (Column.derivedFrom key).isKey = false := rfl
      exact (h.mirrors.placeColumn h.sound (h.sound.child_stored r ch hch) hi _).mono
        (fun _ _ _ _ h => h) (fun _ _ _ _ _ _ _ hin => hin.resolve_right (by simp [hplain]))
        (fun _ _ h => h) fun _ hin => hin.resolve_right (by simp [hplain])
  have hr₁ : s₁.relationships.contains r = true :=
    (hg₁.frame.contains_relationship r).trans (contains_of_parent? hp)
  -- with the mapping in place only its order is open
  have happended := hplaced.appendMapping hr₁ (hg₁.isKey hkey) (s.mapColumn r x).1
  rw [← hmaps.append] at happended
  refine h.advance _ hs' hg (happended.mono (fun _ _ _ _ h => h) (fun r' _ y _ _ _ _ hin => ?_)
    (fun r' _ hin => ?_) fun t' hin => ?_) fun task' ht => ?_
  · refine hin.1.grow (fun depth' heq => ?_) (by simp)
    obtain ⟨-, rfl, rfl⟩ := Grow.map.inj heq
    exact absurd ⟨rfl, rfl⟩ hin.2
  · rcases hin with hin | rfl
    · exact hin.grow h.may hg (by simp) (by simp)
    · refine .inl (List.mem_append_left _ ?_)
      split <;> simp
  · exact hin.grow h.may hg (by simp)
  · split at ht
    · rcases List.mem_cons.mp ht with rfl | ht
      · exact contains_of_owner? hfk
      · obtain rfl := List.mem_singleton.mp ht
        trivial
    · obtain rfl := List.mem_singleton.mp ht
      trivial

/-- Every task that may come up is worked off. -/
theorem Tends.step (h : Tends debt loose (task :: tasks) s) :
    Tends debt loose ((task.step s).1 ++ tasks) (task.step s).2 := by
  cases task with
  | promote depth c =>
      cases depth with
      | zero => exact h.skip
      | succ depth =>
          simp only [Grow.step]
          split
          · rename_i t ho _
            exact h.rank ho
          · exact h.skip
  | join depth c =>
      obtain ⟨t, ho⟩ := h.sound.owned c (contains_of_isKey (h.may _ (List.mem_cons_self ..)))
      simp only [Grow.step, ho]
      split
      · exact h.join ho
      · rename_i hx
        exact h.joinAsleep ho (by simpa using hx)
  | map depth r x =>
      simp only [Grow.step]
      split
      · rename_i hmapped
        -- the column is mapped already, so nothing was owed
        refine h.advance [] h.sound (.refl s) (h.mirrors.mono (fun _ _ _ _ h => h)
          (fun r' _ y _ _ _ hnot hin => ?_) (fun _ _ hin => hin.grow h.may (.refl s) (by simp) (by simp))
          fun _ hin => hin.grow h.may (.refl s) (by simp)) (by simp)
        refine hin.grow (fun depth' heq => ?_) (by simp)
        obtain ⟨-, rfl, rfl⟩ := Grow.map.inj heq
        exact absurd hmapped hnot
      · rename_i hnew
        exact h.map hnew
  | sync r =>
      have hg := grows_syncMappingOrder r s
      refine h.advance [] ((reranks_syncMappingOrder r s).sound h.sound) hg
        ((h.mirrors.syncMappingOrder r).mono (fun _ _ _ _ h => h)
          (fun _ _ _ _ _ _ _ hin => hin.grow (by simp) (by simp)) (fun r' _ hin => ?_)
          fun _ hin => hin.grow h.may hg (by simp)) (by simp)
      exact hin.1.grow h.may hg (fun heq => absurd (Grow.sync.inj heq).symm hin.2) (by simp)

/-- At the end of a run nothing is amiss but what is left for later. -/
theorem Tends.run (h : Tends debt loose tasks s) (hw : WorksOff Grow.step tasks s s') :
    Mirrors (fun _ _ => False) debt (fun r => ∃ t, s'.parent? r = some t ∧ loose t) loose s' := by
  have hend := hw.invariant_all (J := Tends debt loose) (fun _ _ _ h => h.step) h
  have hgap : ∀ t, Gapped loose [] s' t → loose t := fun t ht => ht.resolve_right (by simp)
  refine hend.mirrors.mono (fun _ _ _ _ h => h) (fun _ _ _ _ _ _ _ hin => ?_) (fun r _ hin => ?_) hgap
  · rcases hin with hin | hin | hin
    · exact hin
    · simp at hin
    · simp at hin
  · obtain ⟨t, hp, ht⟩ := hin.resolve_left (by simp)
    exact ⟨t, hp, hgap t ht⟩

end

end Schema

end KeyedSchema
