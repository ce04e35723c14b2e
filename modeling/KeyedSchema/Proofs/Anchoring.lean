import KeyedSchema.Proofs.Descent
import KeyedSchema.Proofs.Persistence

/-!
# Anchoring — identifying relationships keep their columns in the key

A column is *adrift* while a live identifying relationship maps it on its child side and it is
outside of the key. No cascade sets a column adrift (`Anchors`):

- a promotion adds mappings and puts the child column of each into its key, with room for as many
  nested promotions as a walk down the links has tables (`Grow.Deep`);
- a removal takes the mappings of a column along, and a column is demoted on behalf of a
  relationship only if no other live identifying one maps it (`Spared`).
-/

namespace KeyedSchema

namespace Schema

variable {s s' s'' : Schema} {t p ch : TableId} {c pk fk : ColumnId} {r : RelationshipId}
  {m : Mapping}

/-- Whether a live identifying relationship has the mapping, with the child column outside of its
key. -/
structure Adrift (s : Schema) (r : RelationshipId) (m : Mapping) : Prop where
  isLive : s.isLive r = true
  isIdentifying : s.isIdentifying r = true
  mapped : m ∈ s.mappingsOf r
  outside : s.isKey m.fk = false

/-- Whether all columns that are adrift afterwards were so before. -/
def Anchors (s s' : Schema) : Prop := ∀ r m, s'.Adrift r m → s.Adrift r m

namespace Anchors

@[refl] theorem refl (s : Schema) : Anchors s s := fun _ _ h => h

theorem trans (h : Anchors s s') (h' : Anchors s' s'') : Anchors s s'' :=
  fun r m ha => h r m (h' r m ha)

end Anchors

theorem Inherits.isLive_isIdentifying (h : Inherits s s') (hl : s'.isLive r = true)
    (hid : s'.isIdentifying r = true) : s.isLive r = true ∧ s.isIdentifying r = true := by
  obtain ⟨p, ch, hp, hch, -⟩ := isLive_iff.mp hl
  have hc := h r p ch ⟨hl, hid, hp, hch⟩
  exact ⟨hc.isLive, hc.isIdentifying⟩

/-- A column that is adrift was so before, if the mapping was there and the column has not left its
key meanwhile. -/
theorem Adrift.before (h : s'.Adrift r m) (hi : Inherits s s') (hm : m ∈ s.mappingsOf r)
    (hk : s.isKey m.fk = true → s'.isKey m.fk = true) : s.Adrift r m := by
  obtain ⟨hl, hid⟩ := hi.isLive_isIdentifying h.isLive h.isIdentifying
  refine ⟨hl, hid, hm, Bool.eq_false_iff.mpr fun hkey => ?_⟩
  exact absurd (h.outside.symm.trans (hk hkey)) Bool.noConfusion

/-- What adds no links and no mappings, and takes no column out of a key. -/
theorem Inherits.anchors (h : Inherits s s') (hm : ∀ r, s'.mappingsOf r ⊆ s.mappingsOf r)
    (hk : ∀ r, ∀ m ∈ s'.mappingsOf r, s.isKey m.fk = true → s'.isKey m.fk = true) : Anchors s s' :=
  fun r m ha => ha.before h (hm r ha.mapped) (hk r m ha.mapped)

theorem Inherits.anchors_of_columns (h : Inherits s s')
    (hm : ∀ r, s'.mappingsOf r ⊆ s.mappingsOf r) (hcolumns : s'.columns = s.columns) :
    Anchors s s' :=
  h.anchors hm fun _ m _ hk => (isKey_of_columns hcolumns m.fk).trans hk

theorem SameObjects.anchors (h : SameObjects s s') : Anchors s s' :=
  h.sameFrame.inherits.anchors_of_columns (fun r => (h.sameShape.mappingsOf r).subset) h.columns

theorem Untouched.anchors (h : Untouched s s') : Anchors s s' := by
  refine h.inherits.anchors_of_columns (fun r => ?_) ?_
  · rw [h.same]
    exact List.Subset.refl _
  · rw [h.same]

theorem SameSkeleton.anchors (h : SameSkeleton s s') : Anchors s s' :=
  h.inherits.anchors (fun r => h.mappingsOf r ▸ List.Subset.refl _)
    fun _ m _ hk => (isKey_congr (h.rank? m.fk)).trans hk

theorem Unmaps.anchors (h : Unmaps s s') : Anchors s s' :=
  h.sameFrame.inherits.anchors_of_columns (fun r => (h.mappingsOf r).subset) h.columns

theorem Deregisters.anchors (h : Deregisters s s') : Anchors s s' :=
  h.inherits.anchors_of_columns (fun r => h.reregisters.mappingsOf r ▸ List.Subset.refl _)
    h.reregisters.columns

theorem Grows.anchors (h : Grows s s') (hm : ∀ r, s'.mappingsOf r ⊆ s.mappingsOf r) :
    Anchors s s' := h.frame.inherits.anchors hm fun _ _ _ hk => h.isKey hk

/-- A change of ranks by which no column leaves its key. -/
theorem Reranks.anchors (h : Reranks s s') (hk : ∀ c, s.isKey c = true → s'.isKey c = true) :
    Anchors s s' :=
  (h.grows hk).anchors fun r => (h.mappingsOf r).subset

theorem Sound.anchors_normalizeKey (hs : s.Sound) (t : TableId) (placed : Option ColumnId) :
    Anchors s (s.normalizeKey t placed) :=
  (reranks_normalizeKey t placed s).anchors fun c hk => (hs.isKey_normalizeKey t placed c).trans hk

theorem anchors_syncMappingOrder (r : RelationshipId) (s : Schema) :
    Anchors s (s.syncMappingOrder r) :=
  (reranks_syncMappingOrder r s).anchors fun c hk => (isKey_syncMappingOrder r s c).trans hk

theorem AmidEvents.anchors {R : Schema → Schema → Prop} (h : AmidEvents R s s') (hs : s.Sound)
    (hR : ∀ s₁ s₂, SameObjects s s₁ → s₁.Sound → R s₁ s₂ → Anchors s₁ s₂) : Anchors s s' := by
  obtain ⟨s₁, s₂, h₁, h, h₂⟩ := h
  exact (h₁.anchors.trans (hR s₁ s₂ h₁ (hs.of_sameObjects h₁) h)).trans h₂.anchors

/-! ## Promotions -/

theorem SameFrame.shallow (h : SameFrame s s') {depth : Nat} :
    ∀ {t : TableId}, s.Shallow depth t → s'.Shallow depth t := by
  induction depth with
  | zero => exact fun h => h
  | succ depth ih =>
      intro t hsh u hfeeds
      rw [h.feeds] at hfeeds
      exact ih (hsh u hfeeds)

end Schema

/-- How many promotions a task may nest. -/
def Grow.depth : Grow → Nat
  | promote depth _ => depth
  | join depth _ => depth
  | map depth _ _ => depth
  | sync _ => 0

/-- Whether a task may nest as many promotions as it leads to. -/
def Grow.Deep (s : Schema) : Grow → Prop
  | promote depth c => ∀ t, s.owner? c = some t → s.Shallow depth t
  | join depth c => ∀ t, s.owner? c = some t → s.Shallow (depth + 1) t
  | map depth r _ => s.isIdentifying r = true → ∀ ch, s.child? r = some ch → s.Shallow depth ch
  | sync _ => True

namespace Schema

section

variable {s s' s'' : Schema} {t p ch : TableId} {c pk fk : ColumnId} {r : RelationshipId}
  {m : Mapping} {task : Grow} {tasks : List Grow}

theorem Sound.deep (hs : s.Sound) (ha : s.Acyclic) (h : s.tables.size ≤ task.depth) :
    task.Deep s := by
  cases task with
  | promote depth c => exact fun t ht => hs.shallow ha (hs.contains_table_of_owner ht) h
  | join depth c =>
      exact fun t ht => hs.shallow ha (hs.contains_table_of_owner ht) (Nat.le_succ_of_le h)
  | map depth r pk => exact fun _ ch hch => hs.shallow ha (hs.child_stored r ch hch) h
  | sync r => trivial

/-- What grows meanwhile leaves a task that is ready its room. -/
theorem Grows.deep (h : Grows s s') (hready : task.Ready s) (hd : task.Deep s) : task.Deep s' := by
  cases task with
  | promote depth c =>
      exact fun t ht => h.frame.shallow (hd t ((h.owner? hready).symm.trans ht))
  | join depth c =>
      exact fun t ht => h.frame.shallow (hd t ((h.owner? hready).symm.trans ht))
  | map depth r pk =>
      exact fun hid ch hch => h.frame.shallow
        (hd ((h.frame.isIdentifying r).symm.trans hid) ch ((h.frame.child? r).symm.trans hch))
  | sync r => trivial

/-- The tasks that a task leads to have the room that is left. -/
theorem Sound.deep_step (hs : s.Sound) (hready : task.Ready s) (hd : task.Deep s) :
    ∀ next ∈ (task.step s).1, next.Deep (task.step s).2 := by
  intro next hnext
  cases task with
  | promote depth c =>
      cases depth with
      | zero => exact absurd hnext List.not_mem_nil
      | succ depth =>
          simp only [Grow.step] at hnext ⊢
          split at hnext
          · rename_i t _ _
            obtain rfl := List.mem_singleton.mp hnext
            have hre := reranks_changeRank c none (some (s.nextRank t)) s
            exact fun u hu => hre.sameFrame.shallow (hd u ((hre.owner? c).symm.trans hu))
          · exact absurd hnext List.not_mem_nil
  | join depth c =>
      simp only [Grow.step] at hnext ⊢
      split at hnext
      · exact absurd hnext List.not_mem_nil
      · rename_i t hown
        split at hnext
        · rename_i hcasc
          rw [if_pos hcasc]
          obtain ⟨r, hr, rfl⟩ := List.mem_map.mp hnext
          obtain ⟨hl, hp⟩ := (hs.mem_liveExportsOf_iff r t).mp hr
          have hf := (reranks_normalizeKey t (some c) s).sameFrame
          -- a relationship that `t` exports leads one table further down
          intro hid ch hch
          rw [hf.isIdentifying] at hid
          rw [hf.child?] at hch
          exact hf.shallow (hd t hown ch ⟨r, hl, hid, hp, hch⟩)
        · exact absurd hnext List.not_mem_nil
  | map depth r pk =>
      obtain ⟨p, ch, hp, hch, hpk⟩ := hready
      simp only [Grow.step] at hnext ⊢
      split at hnext
      · exact absurd hnext List.not_mem_nil
      · rename_i hnew
        rw [if_neg hnew]
        obtain ⟨s₁, hm⟩ := hs.mapColumn hch hpk
        obtain ⟨-, hg, hfk⟩ := hm.sound hs hp hch hpk hnew
        -- only an identifying relationship goes on to promote the column that it maps now
        split at hnext
        · rename_i hid
          rcases List.mem_cons.mp hnext with rfl | hnext
          · intro u hu
            obtain rfl := Option.some.inj (hfk.symm.trans hu)
            exact hg.frame.shallow (hd hid ch hch)
          · obtain rfl := List.mem_singleton.mp hnext
            trivial
        · obtain rfl := List.mem_singleton.mp hnext
          trivial
  | sync r => exact absurd hnext List.not_mem_nil

/-- A column that is adrift after a task was so before, and was not to be promoted by it, or it is
to be promoted next. -/
theorem Sound.adrift_step (hs : s.Sound) (hready : task.Ready s) (hd : task.Deep s)
    (h : (task.step s).2.Adrift r m) :
    (s.Adrift r m ∧ ∀ depth, task ≠ .promote depth m.fk) ∨
      ∃ depth, .promote depth m.fk ∈ (task.step s).1 := by
  obtain ⟨-, hg, -⟩ := hs.grow_step hready
  have hbefore : m ∈ s.mappingsOf r → s.Adrift r m := fun hm =>
    h.before hg.frame.inherits hm hg.isKey
  cases task with
  | promote depth c =>
      obtain ⟨t, ht⟩ := hs.owned c hready
      cases depth with
      -- no table is this shallow: a task that is ready has room for its promotion
      | zero => exact (hd t ht).elim
      | succ depth =>
          -- the column is in its key afterwards, so it is another one that is adrift
          have hkey : ((Grow.promote (depth + 1) c).step s).2.isKey c = true := by
            simp only [Grow.step, ht]
            cases hrank : s.rank? c with
            | none =>
                unfold isKey
                rw [rank?_changeRank c _ _ s hready, if_pos rfl]
                rfl
            | some k => exact isKey_iff.mpr ⟨k, hrank⟩
          have hm := (hs.mem_mappingsOf_grow hready h.mapped).resolve_right (by simp)
          refine .inl ⟨hbefore hm, ?_⟩
          rintro _ ⟨⟩
          exact absurd (h.outside.symm.trans hkey) Bool.noConfusion
  | join depth c =>
      have hm := (hs.mem_mappingsOf_grow hready h.mapped).resolve_right (by simp)
      exact .inl ⟨hbefore hm, by simp⟩
  | map depth r' pk =>
      have hid := (hg.frame.isIdentifying r).symm.trans h.isIdentifying
      have hm := h.mapped
      by_cases hin : pk ∈ (s.mappingsOf r').map Mapping.pk
      · simp only [Grow.step, hin, if_true] at hm
        exact .inl ⟨hbefore hm, by simp⟩
      · simp only [Grow.step, hin, if_false] at hm ⊢
        rcases hs.mem_mappingsOf_mapColumn hready hm with hm | ⟨rfl, rfl⟩
        · exact .inl ⟨hbefore hm, by simp⟩
        · -- the new mapping waits for its promotion, which comes next
          rw [if_pos hid]
          exact .inr ⟨depth, List.mem_cons_self ..⟩
  | sync r' =>
      have hm := (hs.mem_mappingsOf_grow hready h.mapped).resolve_right (by simp)
      exact .inl ⟨hbefore hm, by simp⟩

/-- How far a run of promotions has come: what is adrift is among `A` or is to be promoted yet. -/
structure Mooring (A : RelationshipId → Mapping → Prop) (tasks : List Grow) (s : Schema) :
    Prop where
  sound : s.Sound
  ready : ∀ task ∈ tasks, task.Ready s
  deep : ∀ task ∈ tasks, task.Deep s
  adrift : ∀ r m, s.Adrift r m → A r m ∨ ∃ depth, .promote depth m.fk ∈ tasks

theorem Mooring.step {A : RelationshipId → Mapping → Prop} (h : Mooring A (task :: tasks) s) :
    Mooring A ((task.step s).1 ++ tasks) (task.step s).2 := by
  have hready := h.ready task (List.mem_cons_self ..)
  have hdeep := h.deep task (List.mem_cons_self ..)
  obtain ⟨hs', hg, hnext⟩ := h.sound.grow_step hready
  refine ⟨hs', fun next hin => ?_, fun next hin => ?_, fun r m ha => ?_⟩
  · rcases List.mem_append.mp hin with hin | hin
    · exact hnext next hin
    · exact hg.ready (h.ready next (List.mem_cons_of_mem _ hin))
  · rcases List.mem_append.mp hin with hin | hin
    · exact h.sound.deep_step hready hdeep next hin
    · have hin := List.mem_cons_of_mem task hin
      exact hg.deep (h.ready next hin) (h.deep next hin)
  · rcases h.sound.adrift_step hready hdeep ha with ⟨ha, hne⟩ | ⟨depth, hin⟩
    · refine (h.adrift r m ha).imp_right (Exists.imp fun depth hin => ?_)
      exact List.mem_append_right _ (List.mem_of_ne_of_mem (hne depth).symm hin)
    · exact .inr ⟨depth, List.mem_append_left _ hin⟩

/-- After a run of promotions only such columns are adrift as were so before and were not
promoted. -/
theorem Sound.adrift_grow {A : RelationshipId → Mapping → Prop} (hs : s.Sound) (ha : s.Acyclic)
    (hready : ∀ task ∈ tasks, task.Ready s) (hdepth : ∀ task ∈ tasks, s.tables.size ≤ task.depth)
    (hA : ∀ r m, s.Adrift r m → A r m ∨ ∃ depth, .promote depth m.fk ∈ tasks)
    (hw : WorksOff Grow.step tasks s s') (h : s'.Adrift r m) : A r m := by
  have hstart : Mooring A tasks s := ⟨hs, hready, fun task ht => hs.deep ha (hdepth task ht), hA⟩
  have hend := hw.invariant_all (J := Mooring A) (fun _ _ _ hJ => hJ.step) hstart
  -- at the end no promotion is left to come
  refine (hend.adrift r m h).resolve_right ?_
  rintro ⟨_, hin⟩
  exact absurd hin List.not_mem_nil

theorem Sound.anchors_grow (hs : s.Sound) (ha : s.Acyclic) (hready : ∀ task ∈ tasks, task.Ready s)
    (hdepth : ∀ task ∈ tasks, s.tables.size ≤ task.depth) (hw : WorksOff Grow.step tasks s s') :
    Anchors s s' :=
  fun _ _ h => hs.adrift_grow (A := s.Adrift) ha hready hdepth (fun _ _ => .inl) hw h

end

/-! ## Removals and demotions -/

section

variable {s s' s'' : Schema} {t : TableId} {c : ColumnId} {r : RelationshipId} {m : Mapping}
  {task : Prune} {tasks : List Prune}

/-- Whether a task takes no column out of a key that a live identifying relationship maps. -/
def Spared (s : Schema) : Prune → Prop
  | .demote c => ∀ r, s.isLive r = true → s.isIdentifying r = true → ∀ m ∈ s.mappingsOf r, m.fk ≠ c
  | .loosen r _ => s.isIdentifying r = false
  | _ => True

/-- What leaves meanwhile leaves no fewer columns to spare. -/
theorem Spared.shrinks (h : Spared s task) (hsh : Shrinks s s') : Spared s' task := by
  cases task with
  | demote c =>
      intro r hl hid m hm
      rw [hsh.frame.isLive] at hl
      rw [hsh.frame.isIdentifying] at hid
      exact h r hl hid m (hsh.mappingsOf r hm)
  | loosen r fk => exact (hsh.frame.isIdentifying r).trans h
  | _ => trivial

/-- A column is held in its key by the other live identifying relationships that map it. -/
theorem Sound.isHeldInKey_iff (hs : s.Sound) : s.isHeldInKey c r = true ↔
    ∃ r' m, r' ≠ r ∧ s.isLive r' = true ∧ s.isIdentifying r' = true ∧ m ∈ s.mappingsOf r' ∧
      m.fk = c := by
  unfold isHeldInKey
  rw [Roster.anyEntry_iff hs.relationships_nodup]
  simp only [Bool.and_eq_true, decide_eq_true_eq, mapsTo_iff]
  constructor
  · rintro ⟨r', rel, hrel, ⟨⟨hne, hid⟩, m, hm, hfk⟩, hl⟩
    exact ⟨r', m, hne, hl, by simp [isIdentifying, hrel, hid], mem_mappingsOf.mpr ⟨rel, hrel, hm⟩,
      hfk⟩
  · rintro ⟨r', m, hne, hl, hid, hm, hfk⟩
    rcases mem_mappingsOf.mp hm with ⟨rel, hrel, hm⟩
    rw [isIdentifying, hrel, Option.any_some] at hid
    exact ⟨r', rel, hrel, ⟨⟨hne, hid⟩, m, hm, hfk⟩, hl⟩

/-- What leaves meanwhile holds no more columns in their keys. -/
theorem Shrinks.isHeldInKey (h : Shrinks s s') (hs : s.Sound) (hs' : s'.Sound)
    (hheld : s'.isHeldInKey c r = true) : s.isHeldInKey c r = true := by
  rcases hs'.isHeldInKey_iff.mp hheld with ⟨r', m, hne, hl, hid, hm, hfk⟩
  exact hs.isHeldInKey_iff.mpr ⟨r', m, hne, (h.frame.isLive r').symm.trans hl,
    (h.frame.isIdentifying r').symm.trans hid, h.mappingsOf r' hm, hfk⟩

/-- What is left to do once a column is demoted are its own mappings. -/
theorem mem_step_demote (h : task ∈ ((Prune.demote c).step s).1) : ∃ r, task = .unmap r c := by
  simp only [Prune.step] at h
  split at h
  · split at h
    · obtain ⟨r, -, rfl⟩ := List.mem_map.mp h
      exact ⟨r, rfl⟩
    · exact absurd h List.not_mem_nil
  · exact absurd h List.not_mem_nil

/-- Demoting a column sets at most this column adrift. -/
theorem Sound.adrift_demote (hs : s.Sound) (h : ((Prune.demote c).step s).2.Adrift r m) :
    s.Adrift r m ∨ m.fk = c := by
  by_cases hfk : m.fk = c
  · exact .inr hfk
  have hsh := (hs.prune_step (.demote c)).2
  refine .inl (h.before hsh.frame.inherits (hsh.mappingsOf r h.mapped) fun hk => ?_)
  rw [hs.isKey_demote, hk]
  simpa using hfk

/-- A task that spares the columns of live identifying relationships sets none of them adrift, and
leads to tasks that spare them. -/
theorem Sound.spared_step (hs : s.Sound) (h : Spared s task) :
    Anchors s (task.step s).2 ∧ ∀ next ∈ (task.step s).1, Spared (task.step s).2 next := by
  have hsh := (hs.prune_step task).2
  cases task with
  | check c =>
      refine ⟨.refl s, fun next hnext => ?_⟩
      simp only [Prune.step] at hnext
      split at hnext
      · obtain rfl := List.mem_singleton.mp hnext
        trivial
      · exact absurd hnext List.not_mem_nil
  | remove c =>
      cases hc : s.columns.contains c with
      | false =>
          rw [hs.step_remove_of_not_contains hc]
          exact ⟨.refl s, fun _ hnext => absurd hnext List.not_mem_nil⟩
      | true =>
          refine ⟨hsh.frame.inherits.anchors hsh.mappingsOf fun r m hm hk => ?_,
            fun next hnext => ?_⟩
          · -- the mappings of the column have gone with it
            obtain ⟨-, -, hfk⟩ := (hs.mem_mappingsOf_cut hc).mp hm
            refine (hs.isKey_cut hc m.fk).trans ?_
            simp [hfk, hk]
          · rcases hs.mem_afterCut hnext with ⟨f, rfl, -⟩ | ⟨t, rfl⟩ <;> trivial
  | number t =>
      refine ⟨?_, fun _ hnext => absurd hnext List.not_mem_nil⟩
      simp only [Prune.step]
      split
      · exact hs.anchors_normalizeKey t none
      · exact .refl s
  | unmap r pk =>
      simp only [Prune.step]
      split
      · rename_i i m _ _
        refine ⟨(unmaps_removeMappingAt r m i s).anchors, fun next hnext => ?_⟩
        obtain rfl := List.mem_singleton.mp hnext
        trivial
      · exact ⟨.refl s, fun _ hnext => absurd hnext List.not_mem_nil⟩
  | demote c =>
      refine ⟨fun r m ha => (hs.adrift_demote ha).resolve_right ?_, fun next hnext => ?_⟩
      · exact h r ((hsh.frame.isLive r).symm.trans ha.isLive)
          ((hsh.frame.isIdentifying r).symm.trans ha.isIdentifying) m (hsh.mappingsOf r ha.mapped)
      · obtain ⟨r, rfl⟩ := mem_step_demote hnext
        trivial
  | loosen r fk =>
      refine ⟨.refl s, fun next hnext => ?_⟩
      simp only [Prune.step] at hnext
      split at hnext
      · rename_i hcond
        rw [Bool.and_eq_true, Bool.not_eq_true'] at hcond
        obtain rfl := List.mem_singleton.mp hnext
        -- a live identifying relationship that maps the column would hold it in its key
        rintro r' hl hid m hm rfl
        have hne : r' ≠ r := by
          rintro rfl
          exact absurd (hid.symm.trans h) Bool.noConfusion
        have hheld := hs.isHeldInKey_iff.mpr ⟨r', m, hne, hl, hid, hm, rfl⟩
        exact absurd (hcond.2.symm.trans hheld) Bool.noConfusion
      · exact absurd hnext List.not_mem_nil
  | sweep r key =>
      simp only [Prune.step]
      split
      · rename_i i m _ _
        refine ⟨(unmaps_removeMappingAt r m i s).anchors, fun next hnext => ?_⟩
        rcases List.mem_cons.mp hnext with rfl | hnext
        · trivial
        · obtain rfl := List.mem_singleton.mp hnext
          trivial
      · exact ⟨.refl s, fun _ hnext => absurd hnext List.not_mem_nil⟩

/-- How far a run of sparing tasks has come. -/
structure Sparing (s₀ : Schema) (tasks : List Prune) (s : Schema) : Prop where
  sound : s.Sound
  anchors : Anchors s₀ s
  spared : ∀ task ∈ tasks, Spared s task

theorem Sound.anchors_prune (hs : s.Sound) (h : ∀ task ∈ tasks, Spared s task)
    (hw : WorksOff Prune.step tasks s s') : Anchors s s' := by
  refine (hw.invariant_all (J := Sparing s) (fun task tasks s₁ h₁ => ?_) ⟨hs, .refl s, h⟩).anchors
  obtain ⟨hs', hsh⟩ := h₁.sound.prune_step task
  obtain ⟨hanchors, hnext⟩ := h₁.sound.spared_step (h₁.spared task (List.mem_cons_self ..))
  refine ⟨hs', h₁.anchors.trans hanchors, fun task' ht => ?_⟩
  rcases List.mem_append.mp ht with ht | ht
  · exact hnext task' ht
  · exact (h₁.spared task' (List.mem_cons_of_mem _ ht)).shrinks hsh

/-- Demoting a column by hand, with what follows from it, sets at most this column adrift. -/
theorem Sound.adrift_of_demote (hs : s.Sound) (hw : WorksOff Prune.step [.demote c] s s')
    (h : s'.Adrift r m) : s.Adrift r m ∨ m.fk = c := by
  cases hw with
  | task hw =>
      have hs₁ := (hs.prune_step (.demote c)).1
      refine hs.adrift_demote (hs₁.anchors_prune (fun task ht => ?_) hw r m h)
      rw [List.append_nil] at ht
      obtain ⟨r, rfl⟩ := mem_step_demote ht
      trivial

end

end Schema

end KeyedSchema
