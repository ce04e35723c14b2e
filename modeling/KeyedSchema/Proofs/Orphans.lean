import KeyedSchema.Proofs.Accounting
import KeyedSchema.Proofs.Step

/-!
# Orphans — a removal takes exactly the orphans along

Every edit that removes something accounts for the columns that go: apart from the columns that it
is asked to remove, those are the columns that live relationships mapped before the edit and that
none maps after it.
-/

namespace KeyedSchema

namespace Schema

variable {s s' : Schema} {t : TableId} {c : ColumnId} {r : RelationshipId}
  {spared : ColumnId → Prop}

theorem AmidEvents.accounts {R : Schema → Schema → Prop} (h : AmidEvents R s s') (hs : s.Sound)
    (hR : ∀ s₁ s₂, SameObjects s s₁ → s₁.Sound → R s₁ s₂ → s₂.Sound ∧ Accounts spared s₁ s₂) :
    Accounts spared s s' := by
  obtain ⟨s₁, s₂, h₁, h, h₂⟩ := h
  have hs₁ := hs.of_sameObjects h₁
  obtain ⟨hs₂, ha⟩ := hR s₁ s₂ h₁ hs₁ h
  exact ((h₁.sameShape.accounts hs).trans ha).trans (h₂.sameShape.accounts hs₂)

/-! ## Relationships that go -/

/-- A relationship that is not live maps nothing that counts. -/
theorem Sound.accounts_dropRelationship (hs : s.Sound) (hs' : (s.dropRelationship r).Sound)
    (hl : s.isLive r = false) : Accounts spared s (s.dropRelationship r) := by
  have hlive : ∀ r', (s.dropRelationship r).isLive r' = s.isLive r' := by
    intro r'
    rw [isLive_dropRelationship]
    by_cases heq : r' = r
    · simp [heq, hl]
    · simp [heq]
  have hret : ∀ c, (s.dropRelationship r).isRetained c = s.isRetained c := by
    intro c
    rw [Bool.eq_iff_iff, hs.isRetained_iff, hs'.isRetained_iff]
    refine exists_congr fun r' => ?_
    rw [hlive]
    refine and_congr_right fun hl' => ?_
    have hne : r' ≠ r := by
      rintro rfl
      rw [hl] at hl'
      exact Bool.noConfusion hl'
    rw [mappingsOf_dropRelationship, if_neg hne]
  refine ⟨fun _ h => h, fun c hc hc' => ?_, fun c h => hret c ▸ h, fun c h _ => (hret c).trans h⟩
  have hc' : s.columns.contains c = false := hc'
  rw [hc] at hc'
  exact absurd hc' Bool.noConfusion

theorem Unlinked.isRetained_of (h : Unlinked r s s') (hs : s.Sound)
    (hc : s'.isRetained c = true) : s.isRetained c = true := by
  obtain ⟨r', hl, m, hm, hfk⟩ := (h.sound.isRetained_iff c).mp hc
  rw [h.isLive, Bool.and_eq_true, decide_eq_true_eq] at hl
  rw [h.mappingsOf, if_neg hl.1] at hm
  exact (hs.isRetained_iff c).mpr ⟨r', hl.2, m, hm, hfk⟩

/-- A column that a live relationship maps is still mapped once `r` is unlinked, unless `r` maps
it. -/
theorem Unlinked.isRetained_or (h : Unlinked r s s') (hs : s.Sound) (hc : s.isRetained c = true) :
    s'.isRetained c = true ∨ (s.isLive r = true ∧ c ∈ (s.mappingsOf r).map Mapping.fk) := by
  obtain ⟨r', hl, m, hm, rfl⟩ := (hs.isRetained_iff c).mp hc
  by_cases heq : r' = r
  · subst heq
    exact .inr ⟨hl, List.mem_map_of_mem hm⟩
  · refine .inl ((h.sound.isRetained_iff _).mpr ⟨r', ?_, m, ?_, rfl⟩)
    · simp [h.isLive, heq, hl]
    · rwa [h.mappingsOf, if_neg heq]

/-- Removing a live relationship takes the columns along that only it mapped. -/
theorem Detaches.accounts (h : Detaches r s s') (hs : s.Sound) (hl : s.isLive r = true) :
    Accounts spared s s' := by
  have hs' := h.sound hs
  obtain ⟨fks, s₁, hfks, hw, rfl⟩ := h
  have hu := hs.unlinked r
  -- the columns to be checked are those that only `r` may have mapped
  have htracks := hw.invariant_all (J := Tracks spared (fun c => s.isRetained c = true) (s.unlink r))
    (fun _ _ _ h => h.step) (hu.sound.tracks (fun c hc => hu.isRetained_of hs hc)
      (fun c hc => (hu.isRetained_or hs hc).imp_right fun hr =>
        List.mem_map_of_mem ((hfks c).mpr hr.2)) fun task ht => by
          obtain ⟨fk, hfk, rfl⟩ := List.mem_map.mp ht
          obtain ⟨m, hm, rfl⟩ := List.mem_map.mp ((hfks fk).mp hfk)
          exact (hs.isRetained_iff _).mpr ⟨r, hl, m, hm, rfl⟩)
  have hdead : s₁.isLive r = false := by
    rw [htracks.shrinks.frame.isLive, hu.isLive]
    simp
  have hrun : Accounts spared s s₁ := by
    refine ⟨fun c hc => ?_, fun c hc => ?_, htracks.retained, fun c hc hc' => ?_⟩
    · rw [← hu.columns]
      exact htracks.shrinks.contains hc
    · exact htracks.gone c (hu.columns ▸ hc)
    · simpa using htracks.pending c hc hc'
  exact hrun.trans (htracks.sound.accounts_dropRelationship hs' hdead)

/-- Taking a relationship out that is not live takes no column along. -/
theorem Sound.accounts_discard (hs : s.Sound) (hl : s.isLive r = false) :
    Accounts spared s ((s.unlink r).dropRelationship r) := by
  have hu := hs.unlinked r
  have hunlink : Accounts spared s (s.unlink r) := by
    refine ⟨fun c hc => hu.columns ▸ hc, fun c hc hc' => ?_, fun c hc => hu.isRetained_of hs hc,
      fun c hc _ => (hu.isRetained_or hs hc).resolve_right fun h => ?_⟩
    · rw [hu.columns, hc] at hc'
      exact absurd hc' Bool.noConfusion
    · rw [hl] at h
      exact Bool.noConfusion h.1
  exact hunlink.trans (hu.sound.accounts_dropRelationship (hs.discard r) (by simp [hu.isLive]))

theorem Dismisses.accounts (h : Dismisses r s s') (hs : s.Sound) : Accounts spared s s' := by
  cases h with
  | gone _ => exact (SameShape.refl s).accounts hs
  | detached hl h => exact h.accounts hs hl
  | discarded hl => exact hs.accounts_discard hl

/-! ## Tables that go -/

theorem accounts_of_chain {rs : List RelationshipId} (h : Chain Dismisses rs s s') (hs : s.Sound) :
    Accounts spared s s' ∧ ∀ c, s'.columns.contains c = true → s'.owner? c = s.owner? c := by
  induction h with
  | nil s => exact ⟨(SameShape.refl s).accounts hs, fun _ _ => rfl⟩
  | cons h₁ _ ih =>
      have hd := h₁.dismissed hs
      obtain ⟨ha, ho⟩ := ih hd.sound
      exact ⟨(h₁.accounts hs).trans ha, fun c hc =>
        (ho c hc).trans (hd.owner? c (ha.stored c hc))⟩

/-- A table without relationships takes its columns along and no others. -/
theorem Sound.accounts_eraseTable (hs : s.Sound) (t : TableId) (i : Nat)
    (hp : ∀ r, s.parent? r ≠ some t) (hch : ∀ r, s.child? r ≠ some t) :
    Accounts (fun c => s.owner? c = some t) s (s.eraseTable t i) := by
  have hs' := hs.eraseTable t i hp hch
  -- no relationship has the erased table as an end
  have hlive : ∀ r, (s.eraseTable t i).isLive r = s.isLive r := by
    intro r
    rw [Bool.eq_iff_iff, isLive_iff, isLive_iff]
    refine exists_congr fun p => exists_congr fun ch => ?_
    rw [parent?_eraseTable, child?_eraseTable, exportsOf_eraseTable, importsOf_eraseTable]
    refine and_congr_right fun hpr => and_congr_right fun hcr => ?_
    have hpt : p ≠ t := fun h => hp r (hpr.trans (congrArg some h))
    have hct : ch ≠ t := fun h => hch r (hcr.trans (congrArg some h))
    rw [if_neg hpt, if_neg hct]
  have hret : ∀ c, (s.eraseTable t i).isRetained c = s.isRetained c := by
    intro c
    rw [Bool.eq_iff_iff, hs.isRetained_iff, hs'.isRetained_iff]
    simp only [hlive, mappingsOf_eraseTable]
  refine ⟨fun c hc => ?_, fun c hc hc' => ?_, fun c h => hret c ▸ h, fun c h _ => (hret c).trans h⟩
  · rw [hs.contains_column_eraseTable, Bool.and_eq_true] at hc
    exact hc.2
  · rw [hs.contains_column_eraseTable, hc] at hc'
    exact .inl (by simpa using hc')

theorem Removes.accounts (h : Removes t s s') (hs : s.Sound) :
    Accounts (fun c => s.owner? c = some t) s s' := by
  obtain ⟨-, s₁, i, hd, ho⟩ := h
  obtain ⟨hp, hch⟩ := no_ends_of_chain hd hs
  have hs₁ := (dismissed_of_chain hd hs).1
  have hs₂ := hs₁.eraseTable t i hp hch
  obtain ⟨hchain, howner⟩ : Accounts (fun c => s.owner? c = some t) s s₁ ∧
      ∀ c, s₁.columns.contains c = true → s₁.owner? c = s.owner? c := accounts_of_chain hd hs
  have herase := (hs₁.accounts_eraseTable t i hp hch).mono fun c hc =>
    (howner c (contains_of_owner? hc)).symm.trans hc
  exact (hchain.trans herase).trans (ho.sameShape.accounts hs₂)

/-! ## Columns and keys -/

theorem Marks.accounts (h : Marks r false s s') (hs : s.Sound) : Accounts spared s s' := by
  cases h with
  | plain _ => exact (sameShape_markIdentifying ..).accounts hs
  | tightens hnew => exact absurd hnew Bool.noConfusion
  | loosens _ _ _ hw =>
      have hshape := sameShape_markIdentifying r true false s
      refine (hshape.accounts hs).trans ((hs.of_sameShape hshape).accounts_prune hw fun task ht => ?_)
      obtain ⟨fk, -, rfl⟩ := List.mem_map.mp ht
      trivial

/-- Whether a column is the child side of a mapping of a live relationship. -/
def IsTarget (s : Schema) (c : ColumnId) : Prop :=
  ∃ r, s.isLive r = true ∧ ∃ m ∈ s.mappingsOf r, m.fk = c

end Schema

namespace Op

open Schema

variable {s s' : Schema} {op : Op} {named : List ColumnId}

/-- The columns that an operation is asked to remove, if it is one that may take columns along. -/
def removal? (s : Schema) : Op → Option (List ColumnId)
  | removeColumn c => some [c]
  | setPrimaryKeySeq _ none => some []
  | setIdentifying _ false => some []
  | removeTable t => some (s.columnsOf t)
  | removeRelationship r => if s.isLive r then some [] else none
  | removeExportedKey _ r => if s.isLive r then some [] else none
  | removeImportedKey _ r => if s.isLive r then some [] else none
  | _ => none

/-- Removing a live relationship accounts for its columns, on whichever side it is asked for. -/
theorem accounts_detach {r : RelationshipId} {Q : Prop} (hs : s.Sound)
    (hop : (if s.isLive r then some [] else none) = some named)
    (h : (s.isLive r = true ∧ AmidEvents (Detaches r) s s') ∨ (s.isLive r = false ∧ Q)) :
    Accounts (· ∈ named) s s' := by
  rcases h with ⟨hl, h⟩ | ⟨hl, -⟩
  · exact h.accounts hs fun s₁ _ ho hs₁ h =>
      ⟨h.sound hs₁, h.accounts hs₁ ((ho.sameShape.isLive r).trans hl)⟩
  · simp [hl] at hop

/-- Every operation that removes something accounts for the columns that go. -/
theorem Does.accounts (h : op.Does s s') (hs : s.Sound) (hop : op.removal? s = some named) :
    Accounts (· ∈ named) s s' := by
  cases op
  case removeTable t =>
    obtain rfl := Option.some.inj hop
    refine AmidEvents.accounts h hs fun s₁ s₂ ho hs₁ h =>
      ⟨h.sound hs₁, (h.accounts hs₁).mono fun c hc => ?_⟩
    rw [hs.listed, ← ho.sameShape.owner?]
    exact hc
  case removeColumn c =>
    obtain rfl := Option.some.inj hop
    refine h.2.2.accounts hs fun s₁ s₂ _ hs₁ hw => ⟨(hs₁.prune hw).1, hs₁.accounts_prune hw ?_⟩
    intro task ht
    obtain rfl := List.mem_singleton.mp ht
    exact .inl (List.mem_singleton.mpr rfl)
  case setPrimaryKeySeq c rank =>
    cases rank with
    | some k => simp [removal?] at hop
    | none =>
        refine h.2.accounts hs fun s₁ s₂ _ hs₁ hw => ⟨(hs₁.prune hw).1, hs₁.accounts_prune hw ?_⟩
        intro task ht
        obtain rfl := List.mem_singleton.mp ht
        trivial
  case setIdentifying r identifying =>
    cases identifying with
    | true => simp [removal?] at hop
    | false => exact h.2.accounts hs fun s₁ s₂ _ hs₁ h => ⟨h.sound hs₁, h.accounts hs₁⟩
  case removeRelationship r => exact accounts_detach hs hop h
  case removeExportedKey t r => exact accounts_detach hs hop h
  case removeImportedKey t r => exact accounts_detach hs hop h
  all_goals simp [removal?] at hop

/-- When an operation removes something from a schema that can be reached, the columns that go,
apart from those it is asked to remove, are exactly those that were the child side of a mapping of a
live relationship before and are not afterwards. -/
theorem gone_iff_orphaned {reply : Reply} (h : s.Reachable) (hop : op.removal? s = some named)
    (hok : op.perform s = (.ok reply, s')) {c : ColumnId} (hc : c ∉ named) :
    (s.columns.contains c = true ∧ s'.columns.contains c = false) ↔
      (s.IsTarget c ∧ ¬ s'.IsTarget c) := by
  have hs := h.sound
  have hs' : s'.Sound := by
    have := sound_perform hs op
    rwa [hok] at this
  have haccounts := (Edit.Ends.of_ok (edit_ends hs op) hok).accounts hs hop
  unfold IsTarget
  rw [haccounts.gone_iff hs hs' hc, ← hs.isRetained_iff, ← hs'.isRetained_iff, Bool.not_eq_true]

end Op

/-- Three tables whose keys follow each other: `a` has the key column `id`, an identifying
relationship maps it to `b`, and another one maps that column to `c`. -/
def followingMoves : List Move :=
  [.edit (.addTable { name := "a" }),
    .edit (.addTable { name := "b" }),
    .edit (.addTable { name := "c" }),
    .edit (.addColumn ⟨1⟩ { name := "id", rank := some 0 }),
    .edit (.createRelationship { name := "ab", identifying := true }),
    .edit (.createRelationship { name := "bc" }),
    .edit (.attachRelationship ⟨1⟩ ⟨1⟩ ⟨2⟩ true),
    .edit (.attachRelationship ⟨2⟩ ⟨2⟩ ⟨3⟩ true)]

/-- Removing the key column of `a` takes the column of `c` along. -/
theorem Op.gone_iff_orphaned_following : ∃ s s' : Schema, s.Reachable ∧
    (∃ reply, (Op.removeColumn ⟨1⟩).perform s = (.ok reply, s')) ∧
    s.columns.contains ⟨3⟩ = true ∧ s'.columns.contains ⟨3⟩ = false ∧
    s.IsTarget ⟨3⟩ ∧ ¬ s'.IsTarget ⟨3⟩ := by
  have hreach : Schema.Reachable ((Moment.start {}).run followingMoves).schema :=
    ⟨{}, followingMoves, rfl⟩
  obtain ⟨reply, s', hok, hin, hout⟩ : ∃ reply s',
      (Op.removeColumn ⟨1⟩).perform ((Moment.start {}).run followingMoves).schema =
        (.ok reply, s') ∧
      ((Moment.start {}).run followingMoves).schema.columns.contains ⟨3⟩ = true ∧
      s'.columns.contains ⟨3⟩ = false := ⟨_, _, rfl, rfl, rfl⟩
  obtain ⟨htarget, hnot⟩ := (Op.gone_iff_orphaned (c := ⟨3⟩) hreach (by rfl) hok (by decide)).mp
    ⟨hin, hout⟩
  exact ⟨_, s', hreach, ⟨reply, hok⟩, hin, hout, htarget, hnot⟩

end KeyedSchema
