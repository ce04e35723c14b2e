import KeyedSchema.Proofs.Step
import KeyedSchema.Proofs.Withering

/-!
# Demotion — what goes when a column is taken out of its key

The relationships that a table exports map nothing but its key, so the mappings of a column that
leaves a key are strays. They are dropped if the table cascades, and the columns that hang on them
go. Adopted columns may close a circle of mappings that leads back to the column itself: then it is
among those that go, and taking it out of the key removes it.
-/

namespace KeyedSchema

/-- What is left to do once a column of `t` is out of its key: its mappings are dropped. -/
def Prune.afterDemote (s : Schema) (t : TableId) (c : ColumnId) : List Prune :=
  if s.isKey c && s.cascades t then (s.liveExportsOf t).map fun r => unmap r c else []

namespace Schema

variable {s s' : Schema} {t : TableId} {c x : ColumnId} {task : Prune}

/-- Whether a column is mapped for the sake of `c` alone: wherever it comes from, through however
many live mappings, it comes from a mapping of `c`. -/
def HangsOn (s : Schema) (c x : ColumnId) : Prop := s.Withers (fun _ m => m.pk = c) x

theorem tasks_step_demote (ht : s.owner? c = some t) :
    ((Prune.demote c).step s).1 = Prune.afterDemote s t c := by
  simp only [Prune.step, ht]
  unfold Prune.afterDemote isKey
  cases s.rank? c with
  | none => rfl
  | some k => cases hx : s.cascades t <;> simp [hx]

theorem mem_afterDemote : task ∈ Prune.afterDemote s t c ↔
    (s.isKey c = true ∧ s.cascades t = true) ∧ ∃ r ∈ s.liveExportsOf t, .unmap r c = task := by
  unfold Prune.afterDemote
  rw [← Bool.and_eq_true]
  split <;> simp [*]

/-- Taking a column out of its key drops its mappings, if its table cascades, and withers what these
leave. No other column leaves a key and stays. -/
theorem Sound.withered_demote (hs : s.Sound) (ht : s.owner? c = some t)
    (hw : WorksOff Prune.step [.demote c] s s') :
    Withered (fun _ m => m.pk = c ∧ s.isKey c = true ∧ s.cascades t = true) s s' ∧
      ∀ x, s'.columns.contains x = true → s'.isKey x = (s.isKey x && !decide (x = c)) := by
  have hshape := sameShape_demote c s
  have hs₁ := hs.of_sameShape hshape
  have hsh := (hs.prune_step (.demote c)).2
  have hkey := hs.isKey_demote c
  cases hw with
  | task hw =>
      rw [List.append_nil, tasks_step_demote ht] at hw
      -- from here on only the shape of the schema matters in which the column is out
      generalize ((Prune.demote c).step s).2 = s₁ at hshape hs₁ hsh hkey hw
      have hmay : ∀ task ∈ Prune.afterDemote s t c,
          MayWither (fun _ m => m.pk = c ∧ s.isKey c = true ∧ s.cascades t = true) s₁ task := by
        intro task hin
        rcases mem_afterDemote.mp hin with ⟨hcond, r, hr, rfl⟩
        have hl := (mem_liveExportsOf.mp hr).2
        exact ⟨(hshape.isLive r).trans hl, fun _ _ hpk => ⟨hpk, hcond⟩⟩
      have hpending : ∀ r m, s₁.isLive r = true → m ∈ s₁.mappingsOf r →
          (m.pk = c ∧ s.isKey c = true ∧ s.cascades t = true) →
          ∃ task ∈ Prune.afterDemote s t c, task.Takes r m := by
        rintro r m hl hm ⟨hpk, hcond⟩
        rcases hs.mapped r m (hshape.mem_mappingsOf.mp hm) with ⟨p, -, hp, -, hown, -⟩
        obtain rfl := Option.some.inj (ht.symm.trans (hpk ▸ hown))
        have hr : r ∈ s.liveExportsOf t :=
          (hs.mem_liveExportsOf_iff r t).mpr ⟨(hshape.isLive r).symm.trans hl, hp⟩
        exact ⟨.unmap r c, mem_afterDemote.mpr ⟨hcond, r, hr, rfl⟩, rfl, hpk⟩
      have hrun := hs₁.withered hmay hpending hw
      refine ⟨hrun.amid hs hshape hsh (.refl s') (.refl s'), fun x hx => ?_⟩
      calc s'.isKey x = s₁.isKey x := (hs₁.withering hmay hpending hw).isKey x hx
        _ = (s.isKey x && !decide (x = c)) := hkey x

/-- In a schema that can be reached, a stored column can always be taken out of its key. If it was
in the key and its table cascades, exactly those columns go that hang on it: the column itself, too,
if all of the mappings that lead to it come from it. A column that stays is in its table, and has no
rank. -/
theorem Reachable.gone_iff_hangsOn (h : s.Reachable) (ht : s.owner? c = some t) :
    ∃ s', (Op.setPrimaryKeySeq c none).perform s = (.ok .done, s') ∧
      (∀ x, s.columns.contains x = true → (s'.columns.contains x = false ↔
        (s.isKey c = true ∧ s.cascades t = true) ∧ s.HangsOn c x)) ∧
      (s'.columns.contains c = true → s'.owner? c = some t ∧ s'.rank? c = none) := by
  have hs := h.sound
  have hends : (Op.setPrimaryKeySeq c none).edit.Ends
      (fun reply s' => reply = .done ∧ AmidEvents (WorksOff Prune.step [.demote c]) s s')
      (fun _ _ => False) s := by
    apply (Edit.ends_map _ _).mpr
    exact (Edit.setPrimaryKeySeq_none_ends hs (contains_of_owner? ht)).imp fun _ _ h => ⟨rfl, h⟩
  rcases hends.exists_ok with ⟨_, s', hok, rfl, s₁, s₂, h₁, hw, h₂⟩
  -- events aside, nothing happens but the demotion
  have ht₁ : s₁.owner? c = some t := (h₁.reranks.owner? c).trans ht
  rcases (hs.of_sameObjects h₁).withered_demote ht₁ hw with ⟨hrun, hkey⟩
  rw [isKey_congr (h₁.rank? c), h₁.sameFrame.cascades] at hrun
  have hwhole := hrun.amid hs h₁.sameShape h₁.shrinks h₂.sameShape h₂.shrinks
  refine ⟨s', hok, fun x hx => (hwhole.gone_iff x hx).trans ?_, fun hc => ?_⟩
  · constructor
    · intro hx
      rcases hx.exists_stray hs with ⟨_, _, -, -, -, hcond⟩
      exact ⟨hcond, hx.imp fun _ _ _ _ hstray => .inl hstray.1⟩
    · rintro ⟨hcond, hx⟩
      exact hx.imp fun _ _ _ _ hpk => .inl ⟨hpk, hcond⟩
  · have hout := hkey c ((h₂.sameShape.contains_column c).symm.trans hc)
    simp only [decide_true, Bool.not_true, Bool.and_false, isKey, Option.isSome_eq_false_iff,
      Option.isNone_iff_eq_none] at hout
    exact ⟨(hwhole.shrinks.owner? c hc).trans ht, (h₂.rank? c).trans hout⟩

/-- Two tables that export their keys to each other: the column of the second one is derived from
the key of the first one, which the relationship that leads back adopts. -/
def mutualMoves : List Move :=
  [.edit (.addTable { name := "a" }),
    .edit (.addColumn ⟨1⟩ { name := "id", rank := some 0 }),
    .edit (.addTable { name := "b" }),
    .edit (.createRelationship { name := "ab" }),
    .edit (.attachRelationship ⟨1⟩ ⟨1⟩ ⟨2⟩ true),
    .edit (.setPrimaryKeySeq ⟨2⟩ (some 0)),
    .edit (.createRelationship { name := "ba" }),
    .edit (.attachRelationship ⟨2⟩ ⟨2⟩ ⟨1⟩ true)]

/-- Either column hangs on the other, so the first one is gone once it is out of the key. -/
theorem gone_iff_hangsOn_mutual : ∃ s s' : Schema, s.Reachable ∧ s.owner? ⟨1⟩ = some ⟨1⟩ ∧
    (Op.setPrimaryKeySeq ⟨1⟩ none).perform s = (.ok .done, s') ∧ s.HangsOn ⟨1⟩ ⟨1⟩ ∧
    s'.columns.contains ⟨1⟩ = false := by
  have hreach : Schema.Reachable ((Moment.start {}).run mutualMoves).schema :=
    ⟨{}, mutualMoves, rfl⟩
  have howner : ((Moment.start {}).run mutualMoves).schema.owner? ⟨1⟩ = some ⟨1⟩ := by
    decide +kernel
  have hgone : ((Op.setPrimaryKeySeq ⟨1⟩ none).perform
      ((Moment.start {}).run mutualMoves).schema).2.columns.contains ⟨1⟩ = false := by
    decide +kernel
  rcases hreach.gone_iff_hangsOn howner with ⟨s', hok, hiff, -⟩
  rw [hok] at hgone
  have hhangs := ((hiff ⟨1⟩ (contains_of_owner? howner)).mp hgone).2
  exact ⟨_, s', hreach, howner, hok, hhangs, hgone⟩

end Schema

end KeyedSchema
