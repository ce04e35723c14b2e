import KeyedSchema.Proofs.Acyclicity
import KeyedSchema.Proofs.Spreading
import KeyedSchema.Proofs.Upkeep

/-!
# Lagging — catching up brings one table back in step

A table that does not cascade for a while may fall behind: its key is not numbered, and the
relationships that it exports do not map all of it. If that is all that is amiss, catching up puts it
right. The key is read once for it, which is enough because mapping it only promotes columns of
tables that the key feeds into: the schema is acyclic, so none of them is the table itself.
-/

namespace KeyedSchema

namespace Schema

open Relation

variable {s s' : Schema} {t : TableId} {c x : ColumnId} {r : RelationshipId}
  {debt : RelationshipId → ColumnId → Prop}

/-! ## Promotions below a table -/

section

variable {task : Grow} {tasks : List Grow}

/-- Whether a task is about a key that the key of `t` feeds into, or maps the key of `t` itself. -/
def Downstream (t : TableId) (s : Schema) : Grow → Prop
  | .promote _ c => ∃ u, s.owner? c = some u ∧ TransGen s.Feeds t u
  | .join _ c => ∃ u, s.owner? c = some u ∧ TransGen s.Feeds t u
  | .map _ r x => s.isLive r = true ∧ ∃ p, s.parent? r = some p ∧ s.owner? x = some p ∧
      ReflTransGen s.Feeds t p
  | .sync _ => True

theorem Downstream.stays (h : Downstream t s task) :
    task.Stays (TransGen s.Feeds t) (ReflTransGen s.Feeds t) s := by
  cases task <;> exact h

/-- Work downstream adds no column to the key of `t`, which no circle leads back to. -/
theorem key_of_grow (hs : s.Sound) (ha : s.Acyclic) (hbelow : ∀ task ∈ tasks, Downstream t s task)
    (hw : WorksOff Grow.step tasks s s') (ho : s'.owner? x = some t) (hk : s'.isKey x = true) :
    s.owner? x = some t ∧ s.isKey x = true :=
  hs.key_elsewhere (s.fences_strictly_below t) (fun task ht => (hbelow task ht).stays) hw (ha t)
    ho hk

end

/-! ## Bringing relationships in line -/

section

variable {key : List ColumnId} {rs : List RelationshipId}

/-- What is left to do while the relationships that `t` exports are brought in line with its key:
those whose turn is still to come may not map all of it. Mappings that are owed stay owed. -/
structure Catching (debt : RelationshipId → ColumnId → Prop) (t : TableId) (key : List ColumnId)
    (rs : List RelationshipId) (s : Schema) : Prop where
  sound : s.Sound
  acyclic : s.Acyclic
  awake : s.Awake
  key_iff : ∀ x, x ∈ key ↔ s.owner? x = some t ∧ s.isKey x = true
  exported : ∀ r ∈ rs, s.isLive r = true ∧ s.parent? r = some t
  mirrors : Mirrors (fun _ _ => False) (fun r x => debt r x ∨ (r ∈ rs ∧ x ∈ key)) (fun _ => False)
    (fun _ => False) s

/-- A relationship has no strays when its turn comes. -/
theorem Catching.no_strays (h : Catching debt t key (r :: rs) s) :
    ∀ m ∈ s.mappingsOf r, m.pk ∈ key := by
  intro m hm
  obtain ⟨hl, hp⟩ := h.exported r (List.mem_cons_self ..)
  exact (h.key_iff m.pk).mpr ⟨h.sound.pk_owner hm hp, (h.mirrors.straight r m hl hm).resolve_right id⟩

/-- Without strays nothing is dropped. -/
theorem worksOff_sweep_of_no_strays (hno : ∀ m ∈ s.mappingsOf r, m.pk ∈ key) :
    WorksOff Prune.step [.sweep r key] s s := by
  have hstep : (Prune.sweep r key).step s = ([], s) := by
    simp only [Prune.step]
    split
    · rename_i i m _ hm
      have hout : m.pk ∉ key := by simpa using List.find?_some hm
      exact absurd (hno m (List.mem_of_find?_eq_some hm)) hout
    · rfl
  refine .task ?_
  rw [hstep]
  exact .done s

theorem eq_of_sweep (hno : ∀ m ∈ s.mappingsOf r, m.pk ∈ key)
    (hw : WorksOff Prune.step [.sweep r key] s s') : s' = s :=
  hw.unique (worksOff_sweep_of_no_strays hno)

/-- Without strays no column is lost. -/
theorem not_loses_of_no_strays (hs : s.Sound) (hno : ∀ m ∈ s.mappingsOf r, m.pk ∈ key) :
    ¬ Loses key r s := by
  rintro ⟨x, -, hd⟩
  rcases (doomed_iff_withers.mp hd).exists_stray hs with ⟨_, m, -, hm, rfl, hstray⟩
  exact hstray (hno m hm)

/-- Once a relationship is brought in line, only those after it are left. -/
theorem Catching.reconciles (h : Catching debt t key (r :: rs) s) (hr : Reconciles key r s s') :
    Catching debt t key rs s' := by
  obtain ⟨s₁, s₂, hw₁, -, hw₂, rfl⟩ := hr
  -- nothing is dropped, so all that happens is that the key is mapped
  obtain rfl := eq_of_sweep h.no_strays hw₁
  obtain ⟨hl, hp⟩ := h.exported r (List.mem_cons_self ..)
  have hmay : ∀ x ∈ key, s₁.owner? x = some t ∧ s₁.isKey x = true := fun x hx =>
    (h.key_iff x).mp hx
  have htends : Tends (fun r' x => debt r' x ∨ (r' ∈ rs ∧ x ∈ key)) (fun _ => False)
      (key.map (.map s₁.tables.size r)) s₁ := by
    refine ⟨h.sound, fun t' ht' hx => ?_, h.mirrors.mono (fun _ _ _ _ h => h)
      (fun r' p x _ _ _ _ hin => ?_) (fun _ _ h => h.elim) (fun _ h => h.elim), fun task ht => ?_⟩
    · rw [h.awake t' ht'] at hx
      exact Bool.noConfusion hx
    · rcases hin with hdebt | ⟨hr', hx⟩
      · exact .inl (.inl hdebt)
      · rcases List.mem_cons.mp hr' with rfl | hr'
        · exact .inr (.inl ⟨_, List.mem_map_of_mem hx⟩)
        · exact .inl (.inr ⟨hr', hx⟩)
    · obtain ⟨x, hx, rfl⟩ := List.mem_map.mp ht
      exact ⟨hl, (hmay x hx).2, t, hp, (hmay x hx).1⟩
  obtain ⟨hs₂, hg⟩ := h.sound.grow (fun task ht => (htends.may task ht).ready) hw₂
  have hend := htends.run hw₂
  have hre := reranks_syncMappingOrder r s₂
  have hf := hg.frame.trans hre.sameFrame
  refine ⟨hre.sound hs₂, h.acyclic.inherits hf.inherits, h.awake.frame hf, fun x => ?_,
    fun r' hr' => ?_, (hend.syncMappingOrder r).mono (fun _ _ _ _ h => h)
      (fun _ _ _ _ _ _ _ h => h) (fun r' _ hin => ?_) (fun _ h => h)⟩
  -- mapping works on tables downstream, so the key of `t` stays the same
  · rw [h.key_iff, hre.owner?, isKey_syncMappingOrder]
    constructor
    · rintro ⟨ho, hk⟩
      exact ⟨(hg.owner? (contains_of_owner? ho)).trans ho, hg.isKey hk⟩
    · rintro ⟨ho, hk⟩
      refine key_of_grow h.sound h.acyclic (fun task ht => ?_) hw₂ ho hk
      obtain ⟨y, hy, rfl⟩ := List.mem_map.mp ht
      exact ⟨hl, t, hp, (hmay y hy).1, .refl⟩
  · obtain ⟨hl', hp'⟩ := h.exported r' (List.mem_cons_of_mem _ hr')
    exact ⟨(hf.isLive r').trans hl', (hf.parent? r').trans hp'⟩
  · obtain ⟨_, -, hno⟩ := hin.1
    exact hno

theorem Catching.chain (h : Catching debt t key rs s) (hc : Chain (Reconciles key) rs s s') :
    Catching debt t key [] s' := by
  induction hc with
  | nil s => exact h
  | cons h₁ _ ih => exact ih (h.reconciles h₁)

/-- Nothing is lost on the way. -/
theorem Catching.not_losesAny (h : Catching debt t key rs s) : ¬ LosesAny key rs s := by
  intro hloses
  induction hloses with
  | here hloses => exact not_loses_of_no_strays h.sound h.no_strays hloses
  | later h₁ _ ih => exact ih (h.reconciles h₁)

end

/-! ## A table that is behind -/

/-- What there is to do is seen from the ranks of the key and the mappings of what is exported. -/
theorem needsReconcile_eq_false : s.needsReconcile t = false ↔
    (∀ i c, (s.primaryKey t)[i]? = some c → s.rank? c = some i) ∧
      ∀ r ∈ s.liveExportsOf t, (s.mappingsOf r).map Mapping.pk = s.primaryKey t := by
  unfold needsReconcile
  simp only [Bool.or_eq_false_iff, List.any_eq_false]
  refine and_congr ⟨fun h i c hc => ?_, fun h => ?_⟩ (forall₂_congr fun r hr => ?_)
  · simpa using h (c, i) (List.mem_zipIdx_iff_getElem?.mpr hc)
  · rintro ⟨c, i⟩ hci
    simpa using h i c (List.mem_zipIdx_iff_getElem?.mp hci)
  · obtain ⟨p, -, hp, -⟩ := isLive_iff.mp (mem_liveExportsOf.mp hr).2
    obtain ⟨rel, hrel, -⟩ := Option.bind_eq_some_iff.mp hp
    simp [mappingsOf, hrel]

/-- As long as a table keeps its columns, there is nothing to catch up with if what it exports
follows the key that it had. -/
theorem needsReconcile_of_mappings (hneeds : s.needsReconcile t = false)
    (hcolumns : s'.columns = s.columns) (hlisted : s'.columnsOf t = s.columnsOf t)
    (hmaps : ∀ r ∈ s'.liveExportsOf t, (s'.mappingsOf r).map Mapping.pk = s.primaryKey t) :
    s'.needsReconcile t = false := by
  have hkey : s'.primaryKey t = s.primaryKey t :=
    primaryKey_congr hlisted fun c _ => rank?_of_columns hcolumns c
  rw [needsReconcile_eq_false, hkey]
  refine ⟨fun i c hc => ?_, hmaps⟩
  rw [rank?_of_columns hcolumns]
  exact (needsReconcile_eq_false.mp hneeds).1 i c hc

/-- What is put in place of an unregistered relationship brings nothing to catch up with. -/
theorem Replaces.needsReconcile {rel : Option Relationship} (h : Replaces r rel s s')
    (hexp : ∀ t, r ∉ s.exportsOf t) (hneeds : s.needsReconcile t = false) :
    s'.needsReconcile t = false := by
  refine needsReconcile_of_mappings hneeds h.columns (h.columnsOf t) fun r' hr' => ?_
  obtain ⟨hin, hl⟩ := mem_liveExportsOf.mp hr'
  rw [h.exportsOf] at hin
  have hne : r' ≠ r := fun heq => hexp t (heq ▸ hin)
  rw [h.mappingsOf, if_neg hne]
  exact (needsReconcile_eq_false.mp hneeds).2 r'
    (mem_liveExportsOf.mpr ⟨hin, (h.agreeBut.isLive hne).symm.trans hl⟩)

/-- Whether all is in step but the table `t`: its key may have gaps, and the relationships that it
exports may miss key columns and be out of order. Others miss at most what they owe. -/
structure Lagging (debt : RelationshipId → ColumnId → Prop) (t : TableId) (s : Schema) : Prop where
  sound : s.Sound
  acyclic : s.Acyclic
  magic : ∃ tbl, s.tables.get? t = some tbl ∧ tbl.magicEnabled = true
  awake : ∀ t', t' ≠ t → s.tables.contains t' = true → s.cascades t' = true
  mirrors : Mirrors (fun _ _ => False) (fun r x => debt r x ∨ s.parent? r = some t)
    (fun r => s.parent? r = some t) (fun t' => t' = t) s

theorem get?_setSecondaryChange (t t' : TableId) (on : Bool) (s : Schema) :
    (s.setSecondaryChange t on).tables.get? t' =
      if t' = t then (s.tables.get? t).map fun tbl => { tbl with inSecondaryChange := on }
      else s.tables.get? t' := by
  unfold setSecondaryChange changeTable
  rw [Roster.get?_modify]
  split
  · rename_i heq
    rw [heq]
  · rfl

theorem get?_settled (t t' : TableId) (s : Schema) : (s.settled t).tables.get? t' =
    if t' = t then (s.tables.get? t).map fun tbl => { tbl with inSecondaryChange := false }
    else s.tables.get? t' := by
  unfold settled
  rw [(SameObjects.release t _).tables, get?_setSecondaryChange]

/-- Outside the mode every table cascades. -/
theorem Lagging.awake_settled (h : Lagging debt t s) : (s.settled t).Awake := by
  intro t' ht'
  obtain ⟨tbl, htbl, hmagic⟩ := h.magic
  unfold cascades
  rw [get?_settled]
  split
  · simp [htbl, Table.cascades, hmagic]
  · rename_i hne
    refine h.awake t' hne ?_
    unfold Roster.contains at ht' ⊢
    rwa [get?_settled, if_neg hne] at ht'

theorem keeps_settled (t : TableId) (s : Schema) : Keeps s (s.settled t) :=
  (sameShape_settled t s).keeps (fun _ => rfl) fun _ => rfl

/-- With nothing to catch up with, no table is behind. -/
theorem mirrors_of_needsReconcile (hs : s.Sound)
    (h : Mirrors (fun _ _ => False) (fun r x => debt r x ∨ s.parent? r = some t)
      (fun r => s.parent? r = some t) (fun t' => t' = t) s)
    (hneeds : s.needsReconcile t = false) :
    MirrorsBut debt s := by
  obtain ⟨hranks, hmaps⟩ := needsReconcile_eq_false.mp hneeds
  have hexports : ∀ r, s.isLive r = true → s.parent? r = some t →
      (s.mappingsOf r).map Mapping.pk = s.primaryKey t := fun r hl hp =>
    hmaps r ((hs.mem_liveExportsOf_iff r t).mpr ⟨hl, hp⟩)
  refine ⟨h.straight, fun r p x hl hp ho hk => ?_, fun r hl => ?_, fun t' => ?_⟩
  · rcases h.complete r p x hl hp ho hk with hin | hdebt | hpt
    · exact .inl hin
    · exact .inr hdebt
    · obtain rfl := Option.some.inj (hpt.symm.trans hp)
      rw [hexports r hl hp, mem_primaryKey, hs.listed]
      exact .inl ⟨ho, hk⟩
  · rcases h.ordered r hl with ho | hpt
    · exact .inl ho
    · exact .inl (inOrder_of_mappings_eq (hexports r hl hpt))
  · rcases h.numbered t' with hn | rfl
    · exact .inl hn
    · exact .inl (numbered_of_ranks hranks)

theorem inherits_catchUpStart (t : TableId) (name : String) (s : Schema) :
    Inherits s (s.catchUpStart t name) :=
  (inherits_settled t s).trans
    ((SameObjects.signal _ _).sameFrame.trans (reranks_normalizeKey t none _).sameFrame).inherits

/-- Catching up starts from a schema in which relationships at most miss key columns. -/
theorem Lagging.catching (h : Lagging debt t s) (name : String) :
    Catching debt t ((s.catchUpStart t name).primaryKey t) ((s.catchUpStart t name).liveExportsOf t)
      (s.catchUpStart t name) := by
  have hsignal := SameObjects.signal (.compoundEditStarted s!"update keys exported by {name}")
    (s.settled t)
  have hshape := sameShape_catchUpStart t name s
  have hs₀ := (h.sound.of_sameShape (sameShape_settled t s)).of_sameObjects hsignal
  have hre := reranks_normalizeKey t none ((s.settled t).signal (.compoundEditStarted
    s!"update keys exported by {name}"))
  have hs₁ : (s.catchUpStart t name).Sound := hre.sound hs₀
  have hm := (hsignal.keeps.mirrors hs₀ ((keeps_settled t s).mirrors
    (h.sound.of_sameShape (sameShape_settled t s)) h.mirrors)).normalizeKey hs₀ t none
  have hkey : ∀ x, x ∈ (s.catchUpStart t name).primaryKey t ↔
      (s.catchUpStart t name).owner? x = some t ∧ (s.catchUpStart t name).isKey x = true := by
    intro x
    rw [mem_primaryKey, hs₁.listed]
  refine ⟨hs₁, h.acyclic.inherits (inherits_catchUpStart t name s),
    h.awake_settled.frame (hsignal.sameFrame.trans hre.sameFrame), hkey,
    fun r hr => (hs₁.mem_liveExportsOf_iff r t).mp hr, ⟨hm.straight, fun r p x hl hp ho hk => ?_,
      fun r hl => ?_, fun t' => ?_⟩⟩
  · refine (hm.complete r p x hl hp ho hk).imp_right fun hmiss => hmiss.imp_right fun hpt => ?_
    have hpt' := (hshape.parent? r).trans hpt
    obtain rfl := Option.some.inj (hpt'.symm.trans hp)
    exact ⟨(hs₁.mem_liveExportsOf_iff r t).mpr ⟨hl, hp⟩, (hkey x).mpr ⟨ho, hk⟩⟩
  · exact (hm.ordered r hl).imp_right fun hin => hin.2 hin.1
  · exact (hm.numbered t').imp_right fun hin => hin.2 hin.1

/-- A table that is behind catches up. -/
theorem Lagging.exits (h : Lagging debt t s) (hx : Exits t s s') :
    s'.Awake ∧ MirrorsBut debt s' := by
  obtain ⟨tbl, htbl, hmagic⟩ := h.magic
  cases hx with
  | absent hnot =>
      rw [Roster.contains_of_get? htbl] at hnot
      exact absurd hnot Bool.noConfusion
  | plain htbl' hcase =>
      obtain rfl := Option.some.inj (htbl.symm.trans htbl')
      have hs₀ := h.sound.of_sameShape (sameShape_settled t s)
      refine ⟨h.awake_settled, mirrors_of_needsReconcile hs₀ ?_ (hcase.resolve_left ?_)⟩
      · exact (keeps_settled t s).mirrors hs₀ h.mirrors
      · rw [hmagic]
        exact Bool.noConfusion
  | @caughtUp _ s₁ _ _ _ hchain =>
      have hend := (h.catching _).chain hchain
      have hsignal := SameObjects.signal .compoundEditEnded s₁
      refine ⟨hend.awake.frame hsignal.sameFrame, hsignal.keeps.mirrors (hend.sound.signal _)
        (hend.mirrors.mono (fun _ _ _ _ h => h) (fun _ _ _ _ _ _ _ hin => ?_) (fun _ _ h => h)
          fun _ h => h)⟩
      exact hin.resolve_right fun hleft => absurd hleft.1 List.not_mem_nil

theorem Lagging.not_exitFails (h : Lagging debt t s) : ¬ ExitFails t s := by
  rintro ⟨tbl, -, -, -, hloses⟩
  exact (h.catching tbl.name).not_losesAny hloses

end Schema

end KeyedSchema
