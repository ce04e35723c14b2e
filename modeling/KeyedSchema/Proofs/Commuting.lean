import KeyedSchema.Proofs.Shedding

/-!
# Commuting — relationships can be removed in any order

Two relationships may be mapped to the same columns, and each may take key columns along that the
other one maps. Still it does not matter which of them is removed first.

- `Lost` : the columns that go are a least set, which is said without running anything and has no
  order in it. `Losing` says how far a run has come, and in the end exactly the lost columns are
  gone.
- `Sheds.agree` : which columns are left determines all the rest.
-/

namespace KeyedSchema

namespace Schema

variable {s s' s₀ a b : Schema} {t : TableId} {c : ColumnId} {r : RelationshipId}
  {stays : RelationshipId → Bool}

/-! ## Which columns go -/

/-- Whether a column goes when the relationships go that do not stay: live relationships map it, and
each of its mappings is of such a relationship or comes from a column that goes as well. -/
inductive Lost (stays : RelationshipId → Bool) (s : Schema) : ColumnId → Prop
  | intro {c : ColumnId} (mapped : s.isRetained c = true)
      (leaves : ∀ r m, s.isLive r = true → stays r = true → m ∈ s.mappingsOf r → m.fk = c →
        Lost stays s m.pk) : Lost stays s c

/-- Whether a task may come up when relationships go. -/
def MayLose (stays : RelationshipId → Bool) (s : Schema) : Prune → Prop
  | .check c => s.isRetained c = true
  | .remove c => s.Lost stays c
  | .number _ => True
  | _ => False

/-- How far removing relationships has come, from the schema `s₀` on. -/
structure Losing (stays : RelationshipId → Bool) (s₀ : Schema) (tasks : List Prune) (s : Schema) :
    Prop where
  sound : s.Sound
  isLive : ∀ r, s.isLive r = true → s₀.isLive r = true
  live : ∀ r, stays r = true → s₀.isLive r = true → s.isLive r = true
  mappingsOf : ∀ r, s.mappingsOf r ⊆ s₀.mappingsOf r
  gone : ∀ c, s₀.columns.contains c = true → s.columns.contains c = false → s₀.Lost stays c
  /-- A mapping leaves with its relationship or with one of its columns. -/
  unmapped : ∀ r m, stays r = true → m ∈ s₀.mappingsOf r → m ∉ s.mappingsOf r →
    s₀.Lost stays m.pk ∨ s₀.Lost stays m.fk
  may : ∀ task ∈ tasks, MayLose stays s₀ task

namespace Losing

variable {task : Prune} {tasks new : List Prune}

theorem refl (hs : s.Sound) : Losing stays s [] s where
  sound := hs
  isLive _ h := h
  live _ _ h := h
  mappingsOf _ _ h := h
  gone c hc hc' := by
    rw [hc] at hc'
    exact absurd hc' Bool.noConfusion
  unmapped _ _ _ hm hout := absurd hm hout
  may _ h := absurd h List.not_mem_nil

theorem isRetained (h : Losing stays s₀ tasks s) (hs₀ : s₀.Sound) (hc : s.isRetained c = true) :
    s₀.isRetained c = true := by
  obtain ⟨r, hl, m, hm, hfk⟩ := (h.sound.isRetained_iff c).mp hc
  exact (hs₀.isRetained_iff c).mpr ⟨r, h.isLive r hl, m, h.mappingsOf r hm, hfk⟩

/-- A column that was mapped and is not any more is lost. -/
theorem lost_of_check (h : Losing stays s₀ tasks s) (hmapped : s₀.isRetained c = true)
    (hnot : s.isRetained c = false) : s₀.Lost stays c := by
  -- each of its mappings has left, and none because the column itself is lost
  by_contra hno
  refine hno (.intro hmapped fun r m hl hr hm hfk => ?_)
  have hout : m ∉ s.mappingsOf r := fun hm' => by
    rw [(h.sound.isRetained_iff c).mpr ⟨r, h.live r hr hl, m, hm', hfk⟩] at hnot
    exact Bool.noConfusion hnot
  exact (h.unmapped r m hr hm hout).resolve_right fun hlost => hno (hfk ▸ hlost)

/-- A step after which the columns and the mappings of relationships that stay are the same. -/
theorem reshape (h : Losing stays s₀ tasks s) (hs' : s'.Sound)
    (hcols : ∀ c, s'.columns.contains c = s.columns.contains c)
    (hlive : ∀ r, s'.isLive r = true → s.isLive r = true)
    (hstays : ∀ r, stays r = true → s'.isLive r = s.isLive r)
    (hsub : ∀ r, s'.mappingsOf r ⊆ s.mappingsOf r)
    (hmaps : ∀ r, stays r = true → s.mappingsOf r ⊆ s'.mappingsOf r)
    (hnew : ∀ task ∈ new, MayLose stays s₀ task) : Losing stays s₀ new s' where
  sound := hs'
  isLive r hl := h.isLive r (hlive r hl)
  live r hr hl := (hstays r hr).trans (h.live r hr hl)
  mappingsOf r _ hm := h.mappingsOf r (hsub r hm)
  gone c hc hc' := h.gone c hc (hcols c ▸ hc')
  unmapped r m hr hm hout := h.unmapped r m hr hm fun hm' => hout (hmaps r hr hm')
  may := hnew

/-- Cutting a lost column. -/
theorem cut (h : Losing stays s₀ (.remove c :: tasks) s) (hs₀ : s₀.Sound)
    (hc : s.columns.contains c = true) :
    Losing stays s₀ (Prune.afterCut s c ++ tasks) (s.cut c) where
  sound := h.sound.cut hc
  isLive r hl := h.isLive r ((sameFrame_cut c s).isLive r ▸ hl)
  live r hr hl := ((sameFrame_cut c s).isLive r).trans (h.live r hr hl)
  mappingsOf r _ hm := h.mappingsOf r ((h.sound.mem_mappingsOf_cut hc).mp hm).1
  gone c' hc' hgone := by
    rw [h.sound.contains_cut hc] at hgone
    by_cases heq : c' = c
    · exact heq ▸ h.may _ (List.mem_cons_self ..)
    · exact h.gone c' hc' (by simpa [heq] using hgone)
  unmapped r m hr hm hout := by
    -- what leaves now has the lost column on one of its sides
    by_cases hin : m ∈ s.mappingsOf r
    · have hlost : s₀.Lost stays c := h.may _ (List.mem_cons_self ..)
      by_cases hpk : m.pk = c
      · exact .inl (hpk ▸ hlost)
      · by_cases hfk : m.fk = c
        · exact .inr (hfk ▸ hlost)
        · exact absurd ((h.sound.mem_mappingsOf_cut hc).mpr ⟨hin, hpk, hfk⟩) hout
    · exact h.unmapped r m hr hm hin
  may task' ht := by
    rcases List.mem_append.mp ht with ht | ht
    · rcases h.sound.mem_afterCut ht with ⟨f, rfl, hf⟩ | ⟨t, rfl⟩
      · exact h.isRetained hs₀ hf
      · trivial
    · exact h.may task' (List.mem_cons_of_mem _ ht)

/-- Every task that may come up is worked off. -/
theorem step (h : Losing stays s₀ (task :: tasks) s) (hs₀ : s₀.Sound) :
    Losing stays s₀ ((task.step s).1 ++ tasks) (task.step s).2 := by
  have hmay := h.may task (List.mem_cons_self ..)
  have hrest : ∀ task' ∈ tasks, MayLose stays s₀ task' := fun task' ht =>
    h.may task' (List.mem_cons_of_mem _ ht)
  have hsame : ∀ {s' : Schema} {new : List Prune}, SameShape s s' →
      (∀ task' ∈ new, MayLose stays s₀ task') → Losing stays s₀ new s' := fun hshape hnew =>
    h.reshape (h.sound.of_sameShape hshape) hshape.contains_column
      (fun r hl => (hshape.isLive r).symm.trans hl) (fun r _ => hshape.isLive r)
      (fun r => (hshape.mappingsOf r).subset) (fun r _ => (hshape.mappingsOf r).symm.subset) hnew
  cases task with
  | check c =>
      refine hsame (.refl s) fun task' ht => ?_
      rcases List.mem_append.mp ht with ht | ht
      · simp only [Prune.step] at ht
        split at ht
        · rename_i hcond
          obtain rfl := List.mem_singleton.mp ht
          rw [Bool.and_eq_true, Bool.not_eq_true'] at hcond
          exact h.lost_of_check hmay hcond.2
        · simp at ht
      · exact hrest task' ht
  | remove c =>
      cases hc : s.columns.contains c with
      | true => exact h.cut hs₀ hc
      | false =>
          rw [h.sound.step_remove_of_not_contains hc]
          exact hsame (.refl s) hrest
  | number t => exact hsame (sameShape_number t s) hrest
  | unmap => exact hmay.elim
  | demote => exact hmay.elim
  | loosen => exact hmay.elim
  | sweep => exact hmay.elim

/-- Removing a live relationship that does not stay. -/
theorem detaches (h : Losing stays s₀ [] s) (hs₀ : s₀.Sound) (hr : stays r = false)
    (hl : s.isLive r = true) (hd : Detaches r s s') : Losing stays s₀ [] s' := by
  have hs' := hd.sound h.sound
  obtain ⟨fks, s₁, hfks, hw, rfl⟩ := hd
  have hu := h.sound.unlinked r
  have hne : ∀ r', stays r' = true → r' ≠ r := fun r' => ne_of_stays hr
  have hunlink : Losing stays s₀ (fks.map .check) (s.unlink r) := by
    refine h.reshape hu.sound (fun c => by rw [hu.columns]) (fun r' hl' => ?_) (fun r' hr' => ?_)
      (fun r' m hm => ?_) (fun r' hr' m hm => ?_) fun task ht => ?_
    · rw [hu.isLive, Bool.and_eq_true] at hl'
      exact hl'.2
    · rw [hu.isLive, decide_eq_true (hne r' hr'), Bool.true_and]
    · rw [hu.mappingsOf] at hm
      split at hm
      · exact absurd hm List.not_mem_nil
      · exact hm
    · rwa [hu.mappingsOf, if_neg (hne r' hr')]
    -- the columns that are checked are those that the relationship maps
    · obtain ⟨fk, hfk, rfl⟩ := List.mem_map.mp ht
      obtain ⟨m, hm, rfl⟩ := List.mem_map.mp ((hfks fk).mp hfk)
      exact h.isRetained hs₀ ((h.sound.isRetained_iff _).mpr ⟨r, hl, m, hm, rfl⟩)
  have hrun := hw.invariant_all (J := Losing stays s₀) (fun _ _ _ h => h.step hs₀) hunlink
  -- what is dropped in the end is a relationship that does not stay
  refine hrun.reshape hs' (fun _ => rfl) (fun r' hl' => ?_) (fun r' hr' => ?_) (fun r' m hm => ?_)
    (fun r' hr' m hm => ?_) fun task ht => absurd ht List.not_mem_nil
  · rw [isLive_dropRelationship, Bool.and_eq_true] at hl'
    exact hl'.2
  · rw [isLive_dropRelationship, decide_eq_true (hne r' hr'), Bool.true_and]
  · rw [mappingsOf_dropRelationship] at hm
    split at hm
    · exact absurd hm List.not_mem_nil
    · exact hm
  · rwa [mappingsOf_dropRelationship, if_neg (hne r' hr')]

/-- When the relationships are gone, exactly the lost columns are gone. -/
theorem lost_iff (h : Losing stays s₀ [] s) (hs₀ : s₀.Sound)
    (haccounts : Accounts (fun _ => False) s₀ s)
    (hdead : ∀ r, s.isLive r = true → stays r = true) :
    s₀.Lost stays c ↔ s₀.columns.contains c = true ∧ s.columns.contains c = false := by
  refine ⟨fun hlost => ?_, fun hc => h.gone c hc.1 hc.2⟩
  -- by induction on being lost: a lost column that stayed would have kept a mapping, whose parent
  -- column is gone
  induction hlost with
  | @intro c hmapped _ ih =>
      refine ⟨hs₀.stored_of_isRetained hmapped, ?_⟩
      by_contra hstay
      have hret := haccounts.left c hmapped (by simpa using hstay)
      obtain ⟨r, hl, m, hm, hfk⟩ := (h.sound.isRetained_iff c).mp hret
      have hgone := ih r m (h.isLive r hl) (hdead r hl) (h.mappingsOf r hm) hfk
      rw [h.sound.pk_stored hm] at hgone
      exact absurd hgone.2 Bool.noConfusion

end Losing

/-! ## What is left is determined -/

/-- Whether ranks tell the mappings of a relationship apart: it maps key columns only, or the key of
its parent has no more columns than there are ranks. Ranks are 32-bit numbers and `lastRank` is the
largest of them, so this fails of keys only that are too long for their ranks. -/
def RanksSuffice (s : Schema) (r : RelationshipId) : Prop :=
  (∀ m ∈ s.mappingsOf r, s.isKey m.pk = true) ∨
    ∀ p, s.parent? r = some p → (s.primaryKey p).length ≤ lastRank + 1

/-- Two schemas in which the same columns are left of a third one. -/
structure Siblings (stays : RelationshipId → Bool) (s a b : Schema) : Prop where
  sound : s.Sound
  left : Sheds stays (fun _ => False) s a
  right : Sheds stays (fun _ => False) s b
  left_sound : a.Sound
  right_sound : b.Sound
  left_stays : ∀ r, a.relationships.contains r = true → stays r = true
  right_stays : ∀ r, b.relationships.contains r = true → stays r = true
  columns : ∀ c, a.columns.contains c = b.columns.contains c

namespace Siblings

theorem symm (h : Siblings stays s a b) : Siblings stays s b a :=
  ⟨h.sound, h.right, h.left, h.right_sound, h.left_sound, h.right_stays, h.left_stays,
    fun c => (h.columns c).symm⟩

theorem columnsOf (h : Siblings stays s a b) (t : TableId) : a.columnsOf t = b.columnsOf t := by
  rw [h.left.narrows.columnsOf, h.right.narrows.columnsOf, funext h.columns]

theorem primaryKey (h : Siblings stays s a b) (t : TableId) : a.primaryKey t = b.primaryKey t := by
  rw [h.left.narrows.primaryKey, h.right.narrows.primaryKey, funext h.columns]

theorem joins (h : Siblings stays s a b) : a.joins = b.joins := by
  funext m
  rw [Schema.joins, Schema.joins, h.columns, h.columns]

theorem renumbers (h : Siblings stays s a b) (t : TableId) :
    Renumbers s a t ↔ Renumbers s b t := by
  unfold Renumbers
  simp only [h.columns]

theorem rank? (h : Siblings stays s a b) (c : ColumnId) : a.rank? c = b.rank? c := by
  cases hc : a.columns.contains c with
  | false =>
      have hc' := (h.columns c).symm.trans hc
      rw [Roster.contains_eq_false_iff] at hc hc'
      rw [Schema.rank?, Schema.rank?, hc, hc']
  | true =>
      obtain ⟨t, ht⟩ := h.left_sound.owned c hc
      have hlisted := (h.left_sound.listed t c).mpr ht
      by_cases hren : Renumbers s a t
      · -- a key that is numbered has its ranks from the order of its columns
        have hna := (h.left.numbered t hren).resolve_left id
        have hnb := (h.right.numbered t ((h.renumbers t).mp hren)).resolve_left id
        have hkey : a.isKey c = b.isKey c := by
          rw [h.left.narrows.isKey c hc, h.right.narrows.isKey c (h.columns c ▸ hc)]
        cases hk : a.isKey c with
        | false =>
            have hnone : a.rank? c = none ∧ b.rank? c = none := by
              simpa [isKey] using And.intro hk (hkey.symm.trans hk)
            rw [hnone.1, hnone.2]
        | true =>
            have hranks := hna.ranks
            rw [h.primaryKey t, ← hnb.ranks, List.map_inj_left] at hranks
            exact hranks c (h.primaryKey t ▸ mem_primaryKey.mpr ⟨hlisted, hk⟩)
      · rw [h.left.rank? t hren c hlisted,
          h.right.rank? t (hren ∘ (h.renumbers t).mpr) c (h.columnsOf t ▸ hlisted)]

theorem columns_eq (h : Siblings stays s a b) : a.columns = b.columns := by
  refine Roster.eq_of_get? h.right_sound.columns_nodup ?_ fun c => ?_
  · rw [h.left.narrows.columnKeys, h.right.narrows.columnKeys, funext h.columns]
  · cases hc : a.columns.contains c with
    | false =>
        have hc' := (h.columns c).symm.trans hc
        rw [Roster.contains_eq_false_iff] at hc hc'
        rw [hc, hc']
    | true =>
        obtain ⟨col, hcol⟩ := (Roster.contains_iff _ _).mp hc
        obtain ⟨col', hcol'⟩ := (Roster.contains_iff _ _).mp ((h.columns c).symm.trans hc)
        have hunranked := (h.left.narrows.unranked c hc).trans
          (h.right.narrows.unranked c (h.columns c ▸ hc)).symm
        have hrank := h.rank? c
        rw [rank?_of_get? hcol, rank?_of_get? hcol'] at hrank
        rw [hcol, hcol', Option.map_some, Option.map_some, Option.some.injEq] at hunranked
        rw [hcol, hcol']
        cases col
        cases col'
        simp_all [Column.unranked]

/-- The relationships that a table has registered all stay. -/
theorem filter_exportsOf (h : Siblings stays s a b) (t : TableId) :
    (a.exportsOf t).filter stays = a.exportsOf t ∧ (a.importsOf t).filter stays = a.importsOf t := by
  rw [List.filter_eq_self, List.filter_eq_self]
  exact ⟨fun r hr => h.left_stays r (contains_of_parent? (h.left_sound.exported t r hr)),
    fun r hr => h.left_stays r (contains_of_child? (h.left_sound.imported t r hr))⟩

theorem tables_eq (h : Siblings stays s a b) : a.tables = b.tables := by
  have hbare := h.left.sameBut.tables.trans h.right.sameBut.tables.symm
  refine Roster.eq_of_get? h.right_sound.tables_nodup ?_ fun t => ?_
  · rw [← Roster.keys_map Table.bare, hbare, Roster.keys_map]
  · have hcols := h.columnsOf t
    have hexp : a.exportsOf t = b.exportsOf t := by
      rw [← (h.filter_exportsOf t).1, ← (h.symm.filter_exportsOf t).1, h.left.sameBut.exportsOf,
        h.right.sameBut.exportsOf]
    have himp : a.importsOf t = b.importsOf t := by
      rw [← (h.filter_exportsOf t).2, ← (h.symm.filter_exportsOf t).2, h.left.sameBut.importsOf,
        h.right.sameBut.importsOf]
    have ht := congrArg (fun m => Roster.get? m t) hbare
    unfold Schema.columnsOf at hcols
    unfold exportsOf at hexp
    unfold importsOf at himp
    rw [Roster.get?_map, Roster.get?_map] at ht
    cases hta : a.tables.get? t with
    | none =>
        rw [hta, Option.map_none, eq_comm, Option.map_eq_none_iff] at ht
        exact ht.symm
    | some tbl =>
        rw [hta, Option.map_some, eq_comm, Option.map_eq_some_iff] at ht
        obtain ⟨tbl', htb, ht⟩ := ht
        rw [hta, htb] at hcols hexp himp
        rw [htb]
        cases tbl
        cases tbl'
        simp_all [Table.bare]

theorem relationshipKeys (h : Siblings stays s a b) : a.relationships.keys = b.relationships.keys := by
  have hself : ∀ {m : Roster RelationshipId Relationship},
      (∀ r, m.contains r = true → stays r = true) → m.keys.filter stays = m.keys := fun hm =>
    List.filter_eq_self.mpr fun r hr => hm r ((Roster.mem_keys_iff _ _).mp hr)
  rw [← hself h.left_stays, ← hself h.right_stays, h.left.sameBut.relationshipKeys,
    h.right.sameBut.relationshipKeys]

theorem get?_of_gone (h : Siblings stays s a b) (hr : stays r = false) :
    a.relationships.get? r = none := by
  rw [← Roster.contains_eq_false_iff, Bool.eq_false_iff]
  intro hc
  rw [h.left_stays r hc] at hr
  exact Bool.noConfusion hr

theorem frame (h : Siblings stays s a b) (r : RelationshipId) :
    (a.relationships.get? r).map Relationship.frame =
      (b.relationships.get? r).map Relationship.frame := by
  cases hr : stays r with
  | true => exact (h.left.sameBut.frame r hr).trans (h.right.sameBut.frame r hr).symm
  | false => rw [h.get?_of_gone hr, h.symm.get?_of_gone hr]

theorem frames_eq (h : Siblings stays s a b) :
    a.relationships.map Relationship.frame = b.relationships.map Relationship.frame := by
  refine Roster.eq_of_get? ?_ ?_ fun r => ?_
  · rw [Roster.keys_map]
    exact h.right_sound.relationships_nodup
  · rw [Roster.keys_map, Roster.keys_map, h.relationshipKeys]
  · rw [Roster.get?_map, Roster.get?_map, h.frame]

theorem mappings_perm (h : Siblings stays s a b) (r : RelationshipId) :
    (a.mappingsOf r).Perm (b.mappingsOf r) := by
  cases hr : stays r with
  | true =>
      refine (h.left.mappings r hr).trans (.trans (.of_eq ?_) (h.right.mappings r hr).symm)
      rw [h.joins]
  | false => rw [mappingsOf, mappingsOf, h.get?_of_gone hr, h.symm.get?_of_gone hr]

/-- Where a mapping belongs in a relationship whose parent has been numbered: those of columns
outside the key go last, and no other one does. -/
theorem mappingRank_eq (h : Siblings stays s a b) (hren : Renumbers s a t)
    (hfit : (s.primaryKey t).length ≤ lastRank + 1) {m : Mapping} (hpk : a.owner? m.pk = some t) :
    a.mappingRank m = lastRank ↔ s.isKey m.pk = false := by
  rw [← h.left.narrows.isKey _ (contains_of_owner? hpk)]
  cases hk : a.isKey m.pk with
  | false =>
      have hrank : a.rank? m.pk = none := by simpa [isKey] using hk
      simp [mappingRank, hrank]
  | true =>
      obtain ⟨k, hrank⟩ := isKey_iff.mp hk
      have hmem := mem_primaryKey.mpr ⟨(h.left_sound.listed t m.pk).mpr hpk, hk⟩
      have hlt := ((h.left.numbered t hren).resolve_left id).rank_lt hmem hrank
      -- the key has lost a column, so its ranks stay below the last one
      have hlen : (a.primaryKey t).length < (s.primaryKey t).length := by
        obtain ⟨-, x, hx, hgone⟩ := hren
        rw [h.left.narrows.primaryKey]
        exact List.length_filter_lt_length_iff_exists.mpr ⟨x, hx, by simp [hgone]⟩
      simp only [mappingRank, hrank, Option.getD_some, Bool.true_eq_false, iff_false]
      omega

/-- The mappings of a relationship whose parent has been numbered. -/
theorem mappings_eq_of_renumbers (h : Siblings stays s a b) (hsuffice : s.RanksSuffice r)
    (hr : stays r = true) (hexp : r ∈ s.exportsOf t) (hren : Renumbers s a t) :
    a.mappingsOf r = b.mappingsOf r := by
  have hnum := (h.left.numbered t hren).resolve_left id
  have hoa := (h.left.ordered t r hr hren hexp).resolve_left id
  have hob := (h.right.ordered t r hr ((h.renumbers t).mp hren) hexp).resolve_left id
  unfold InOrder at hoa hob
  rw [mappingRank_congr fun c => (h.rank? c).symm] at hob
  have hperm := h.mappings_perm r
  have hp := h.left_sound.exported t r ((h.left.sameBut.mem_exportsOf hr).mpr hexp)
  have howner : ∀ m ∈ a.mappingsOf r, a.owner? m.pk = some t := fun m hm =>
    h.left_sound.pk_owner hm hp
  -- no two mappings of key columns have the same place
  have hsame : ∀ m ∈ a.mappingsOf r, ∀ m' ∈ a.mappingsOf r, a.isKey m.pk = true →
      a.isKey m'.pk = true → a.mappingRank m ≤ a.mappingRank m' →
      a.mappingRank m' ≤ a.mappingRank m → m = m' := fun m hm m' hm' hk hk' hle hle' => by
    have hlisted := fun m hm => (h.left_sound.listed t m.pk).mpr (howner m hm)
    exact h.left_sound.pk_unique hm hm' (hnum.antisymm (mem_primaryKey.mpr ⟨hlisted m hm, hk⟩)
      (mem_primaryKey.mpr ⟨hlisted m' hm', hk'⟩) hle hle')
  -- if only key columns are mapped, there are no ties; otherwise the ties are the mappings of columns
  -- outside the key, provided that no key column has their rank
  rcases hsuffice with hkeys | hfit
  · have hkey : ∀ m ∈ a.mappingsOf r, a.isKey m.pk = true := fun m hm => by
      rw [h.left.narrows.isKey _ (h.left_sound.pk_stored hm)]
      exact hkeys m (List.mem_filter.mp ((h.left.mappings r hr).mem_iff.mp hm)).1
    refine hperm.eq_of_pairwise (fun m m' hm hm' => ?_) hoa hob
    have hm' := hperm.mem_iff.mpr hm'
    exact hsame m hm m' hm' (hkey m hm) (hkey m' hm')
  · have hlast : ∀ m ∈ a.mappingsOf r, decide (a.mappingRank m = lastRank) = !s.isKey m.pk :=
      fun m hm => by
        rw [Bool.eq_iff_iff, decide_eq_true_eq, Bool.not_eq_true']
        exact h.mappingRank_eq hren (hfit t (h.sound.exported t r hexp)) (howner m hm)
    refine eq_of_sorted hoa hob fun n => ?_
    by_cases hn : n = lastRank
    -- the mappings of columns outside the key have kept their order
    · subst hn
      rw [List.filter_congr hlast, List.filter_congr fun m hm => hlast m (hperm.mem_iff.mpr hm),
        h.left.others r hr, h.right.others r hr, h.joins]
    · have hplace : ∀ m, m ∈ (a.mappingsOf r).filter (fun m => a.mappingRank m = n) →
          m ∈ a.mappingsOf r ∧ a.isKey m.pk = true ∧ a.mappingRank m = n := fun m hm => by
        rw [List.mem_filter, decide_eq_true_eq] at hm
        exact ⟨hm.1, isKey_of_mappingRank fun hlast => hn (hm.2.symm.trans hlast), hm.2⟩
      have hfilter := hperm.filter fun m => a.mappingRank m = n
      refine hfilter.eq_of_pairwise (fun m m' hm hm' _ _ => ?_)
        (List.pairwise_of_forall fun _ _ => trivial) (List.pairwise_of_forall fun _ _ => trivial)
      obtain ⟨hm, hk, hrank⟩ := hplace m hm
      obtain ⟨hm', hk', hrank'⟩ := hplace m' (hfilter.mem_iff.mpr hm')
      have heq : a.mappingRank m = a.mappingRank m' := hrank.trans hrank'.symm
      exact hsame m hm m' hm' hk hk' (Nat.le_of_eq heq) (Nat.le_of_eq heq.symm)

theorem mappings_eq (h : Siblings stays s a b) (hsuffice : s.RanksSuffice r) :
    a.mappingsOf r = b.mappingsOf r := by
  cases hr : stays r with
  | false => rw [mappingsOf, mappingsOf, h.get?_of_gone hr, h.symm.get?_of_gone hr]
  | true =>
      by_cases hexp : ∃ t, r ∈ s.exportsOf t ∧ Renumbers s a t
      · obtain ⟨t, hexp, hren⟩ := hexp
        exact h.mappings_eq_of_renumbers hsuffice hr hexp hren
      -- without a renumbering of the parent, both are what is left of the old list
      · have hnot : ∀ t, r ∈ s.exportsOf t → ¬ Renumbers s a t := fun t ht hren => hexp ⟨t, ht, hren⟩
        rw [h.left.order r hr hnot, h.right.order r hr fun t ht => hnot t ht ∘ (h.renumbers t).mpr,
          h.joins]

end Siblings

/-! ## Removing relationships -/

theorem Detaches.contains (h : Detaches r s s') (hs : s.Sound) (r' : RelationshipId) :
    s'.relationships.contains r' = (decide (r' ≠ r) && s.relationships.contains r') := by
  obtain ⟨fks, s₁, -, hw, rfl⟩ := h
  have hu := hs.unlinked r
  have hcontains : (s.unlink r).relationships.contains r' = s.relationships.contains r' := by
    rw [Bool.eq_iff_iff, ← Roster.mem_keys_iff, ← Roster.mem_keys_iff, hu.relationshipKeys]
  rw [dropRelationship, Roster.contains_erase, (hu.sound.prune hw).2.frame.contains_relationship,
    hcontains, decide_not]

theorem Detaches.isLive (h : Detaches r s s') (hs : s.Sound) (r' : RelationshipId) :
    s'.isLive r' = (decide (r' ≠ r) && s.isLive r') := by
  obtain ⟨fks, s₁, -, hw, rfl⟩ := h
  have hu := hs.unlinked r
  rw [isLive_dropRelationship, (hu.sound.prune hw).2.frame.isLive, hu.isLive, ← Bool.and_assoc,
    Bool.and_self]

/-- What is left when live relationships are removed. -/
structure Detached (stays : RelationshipId → Bool) (s₀ s : Schema) : Prop where
  sheds : Sheds stays (fun _ => False) s₀ s
  losing : Losing stays s₀ [] s
  accounts : Accounts (fun _ => False) s₀ s

namespace Detached

theorem refl (hs : s.Sound) : Detached stays s s :=
  ⟨.refl hs, .refl hs, (SameShape.refl s).accounts hs⟩

theorem events (h : Detached stays s₀ s) (ho : SameObjects s s') : Detached stays s₀ s' where
  sheds := by
    obtain ⟨held, raised, published, origins, rfl⟩ := ho.exists_eq
    exact h.sheds.of_columns ho.sameFrame.sameBut rfl (fun _ => rfl) fun _ _ => rfl
  losing := h.losing.reshape (h.losing.sound.of_sameObjects ho) ho.sameShape.contains_column
    (fun r hl => (ho.sameShape.isLive r).symm.trans hl) (fun r _ => ho.sameShape.isLive r)
    (fun r => (ho.sameShape.mappingsOf r).subset) (fun r _ => (ho.sameShape.mappingsOf r).symm.subset)
    fun _ ht => absurd ht List.not_mem_nil
  accounts := h.accounts.trans (ho.sameShape.accounts h.losing.sound)

theorem detaches (h : Detached stays s₀ s) (hs₀ : s₀.Sound) (hr : stays r = false)
    (hl : s.isLive r = true) (hd : AmidEvents (Detaches r) s s') : Detached stays s₀ s' := by
  obtain ⟨s₁, s₂, h₁, hd, h₂⟩ := hd
  obtain ⟨hsheds, hlosing, haccounts⟩ := h.events h₁
  have hs₁ := hlosing.sound
  have hl₁ := (h₁.sameShape.isLive r).trans hl
  exact Detached.events ⟨hsheds.detaches hs₁ hr hd, hlosing.detaches hs₀ hr hl₁ hd,
    haccounts.trans (hd.accounts hs₁ hl₁)⟩ h₂

/-- Once all that do not stay are removed, what is left does not depend on how it was done. -/
theorem siblings (ha : Detached stays s a) (hb : Detached stays s b) (hs : s.Sound)
    (hga : ∀ r, a.relationships.contains r = true → stays r = true)
    (hgb : ∀ r, b.relationships.contains r = true → stays r = true) : Siblings stays s a b := by
  have hleft : ∀ {s' : Schema}, Detached stays s s' →
      (∀ r, s'.relationships.contains r = true → stays r = true) → ∀ c,
        s'.columns.contains c = true ↔ s.columns.contains c = true ∧ ¬ s.Lost stays c := by
    intro s' h hg c
    -- no live relationship is left that was to go
    have hdead : ∀ r, s'.isLive r = true → stays r = true := fun r hl => by
      obtain ⟨p, -, hp, -⟩ := isLive_iff.mp hl
      exact hg r (contains_of_parent? hp)
    have hiff : s.Lost stays c ↔ _ := h.losing.lost_iff hs h.accounts hdead
    rw [hiff]
    constructor
    · exact fun hc => ⟨h.accounts.stored c hc, fun hgone => by simp [hc] at hgone⟩
    · rintro ⟨hc, hnot⟩
      simpa [hc] using hnot
  refine ⟨hs, ha.sheds, hb.sheds, ha.losing.sound, hb.losing.sound, hga, hgb, fun c => ?_⟩
  rw [Bool.eq_iff_iff, hleft ha hga, hleft hb hgb]

end Detached

theorem AmidEvents.detached (h : AmidEvents (Detaches r) s s') (hs : s.Sound) (r' : RelationshipId) :
    s'.relationships.contains r' = (decide (r' ≠ r) && s.relationships.contains r') ∧
      s'.isLive r' = (decide (r' ≠ r) && s.isLive r') := by
  obtain ⟨s₁, s₂, h₁, hd, h₂⟩ := h
  have hs₁ := hs.of_sameObjects h₁
  rw [h₂.sameShape.contains_relationship, hd.contains hs₁, h₁.sameShape.contains_relationship,
    h₂.sameShape.isLive, hd.isLive hs₁, h₁.sameShape.isLive]
  exact ⟨rfl, rfl⟩

end Schema

namespace Op

open Schema

variable {s s' : Schema}

/-- Whether an operation is carried out and leaves the second schema. -/
def Leads (op : Op) (s s' : Schema) : Prop := ∃ reply, op.perform s = (.ok reply, s')

/-- A live relationship can be removed. -/
theorem removeRelationship_leads {r : RelationshipId} (hs : s.Sound) (hl : s.isLive r = true) :
    ∃ s', (removeRelationship r).Leads s s' ∧ AmidEvents (Detaches r) s s' := by
  obtain ⟨p, -, hp, -⟩ := isLive_iff.mp hl
  obtain ⟨rel, hrel⟩ := (Roster.contains_iff _ _).mp (contains_of_parent? hp)
  have hends : (removeRelationship r).edit.Ends (fun _ s' => AmidEvents (Detaches r) s s')
      (fun _ _ => False) s := by
    unfold edit Edit.removeRelationship
    simp only [Edit.ends_map, Edit.ends_bind, Edit.ends_discard, Edit.ends_relationship_of hrel,
      Edit.ends_get, hl, if_true]
    exact Edit.detach_ends hs hl
  obtain ⟨reply, s', hok, hd⟩ := hends.exists_ok
  exact ⟨s', ⟨reply, hok⟩, hd⟩

/-- Two live relationships can be removed one after the other, and all others remain. -/
theorem removals_lead {r₁ r₂ : RelationshipId} {stays : RelationshipId → Bool} (hs : s.Sound)
    (h₁ : s.isLive r₁ = true) (h₂ : s.isLive r₂ = true) (hne : r₁ ≠ r₂)
    (hstays : ∀ r, stays r = true ↔ r ≠ r₁ ∧ r ≠ r₂) :
    ∃ s₁ s', (removeRelationship r₁).Leads s s₁ ∧ (removeRelationship r₂).Leads s₁ s' ∧
      Detached stays s s' ∧
      ∀ r, s'.relationships.contains r = true ↔
        s.relationships.contains r = true ∧ r ≠ r₁ ∧ r ≠ r₂ := by
  have hgone₁ : stays r₁ = false := by simp [← Bool.not_eq_true, hstays]
  have hgone₂ : stays r₂ = false := by simp [← Bool.not_eq_true, hstays]
  obtain ⟨s₁, hlead₁, hd₁⟩ := removeRelationship_leads hs h₁
  have hdet₁ := (Detached.refl hs).detaches hs hgone₁ h₁ hd₁
  have hs₁ := hdet₁.losing.sound
  have hl₂ : s₁.isLive r₂ = true := by rw [(hd₁.detached hs r₂).2, h₂]; simpa using hne.symm
  obtain ⟨s', hlead₂, hd₂⟩ := removeRelationship_leads hs₁ hl₂
  refine ⟨s₁, s', hlead₁, hlead₂, hdet₁.detaches hs hgone₂ hl₂ hd₂, fun r => ?_⟩
  rw [(hd₂.detached hs₁ r).1, (hd₁.detached hs r).1]
  simp only [Bool.and_eq_true, decide_eq_true_eq]
  constructor
  · rintro ⟨hne₂, hne₁, hr⟩
    exact ⟨hr, hne₁, hne₂⟩
  · rintro ⟨hr, hne₁, hne₂⟩
    exact ⟨hne₂, hne₁, hr⟩

/-- Two live relationships can be removed in either order, and it does not matter in which. In the
end the two are gone and all others remain; tables, columns and relationships are the same, with the
same mappings. The mappings are
also in the same order, unless columns outside the key of the parent are among those mapped and this
key has more columns than there are ranks. -/
theorem removals_commute {r₁ r₂ : RelationshipId} (h : s.Reachable) (h₁ : s.isLive r₁ = true)
    (h₂ : s.isLive r₂ = true) (hne : r₁ ≠ r₂) :
    ∃ s₁ s₂ s₁₂ s₂₁ : Schema,
      (removeRelationship r₁).Leads s s₁ ∧ (removeRelationship r₂).Leads s₁ s₁₂ ∧
      (removeRelationship r₂).Leads s s₂ ∧ (removeRelationship r₁).Leads s₂ s₂₁ ∧
      (∀ r, s₁₂.relationships.contains r = true ↔
        s.relationships.contains r = true ∧ r ≠ r₁ ∧ r ≠ r₂) ∧
      s₁₂.tables = s₂₁.tables ∧ s₁₂.columns = s₂₁.columns ∧
      s₁₂.relationships.map Relationship.frame = s₂₁.relationships.map Relationship.frame ∧
      (∀ r, (s₁₂.mappingsOf r).Perm (s₂₁.mappingsOf r)) ∧
      (∀ r, s.RanksSuffice r → s₁₂.mappingsOf r = s₂₁.mappingsOf r) := by
  have hs := h.sound
  have hstays : ∀ r, (decide (r ≠ r₁) && decide (r ≠ r₂)) = true ↔ r ≠ r₁ ∧ r ≠ r₂ := fun r => by
    rw [Bool.and_eq_true, decide_eq_true_eq, decide_eq_true_eq]
  obtain ⟨s₁, s₁₂, hlead₁, hlead₁₂, hd₁₂, hremain₁₂⟩ := removals_lead hs h₁ h₂ hne hstays
  obtain ⟨s₂, s₂₁, hlead₂, hlead₂₁, hd₂₁, hremain₂₁⟩ := removals_lead hs h₂ h₁ hne.symm
    fun r => (hstays r).trans and_comm
  have hsib := hd₁₂.siblings hd₂₁ hs (fun r hr => (hstays r).mpr ((hremain₁₂ r).mp hr).2)
    fun r hr => (hstays r).mpr ((hremain₂₁ r).mp hr).2.symm
  exact ⟨s₁, s₂, s₁₂, s₂₁, hlead₁, hlead₁₂, hlead₂, hlead₂₁, hremain₁₂, hsib.tables_eq,
    hsib.columns_eq, hsib.frames_eq, hsib.mappings_perm, fun _ => hsib.mappings_eq⟩

theorem Leads.eq {op : Op} (h : op.Leads s s') : s' = (op.perform s).2 := by
  obtain ⟨reply, h⟩ := h
  rw [h]

end Op

/-- Orders and invoices have lines, and lines have notes: the first two relationships map their keys
to the same column, which is in the key of the lines together with a number. -/
def lineMoves : List Move :=
  [.edit (.addTable { name := "order" }),
    .edit (.addTable { name := "invoice" }),
    .edit (.addTable { name := "line" }),
    .edit (.addTable { name := "note" }),
    .edit (.addColumn ⟨1⟩ { name := "id", rank := some 0 }),
    .edit (.addColumn ⟨2⟩ { name := "id", rank := some 0 }),
    .edit (.createRelationship { name := "order_line", identifying := true }),
    .edit (.createRelationship { name := "invoice_line", identifying := true }),
    .edit (.createRelationship { name := "line_note" }),
    .edit (.attachRelationship ⟨1⟩ ⟨1⟩ ⟨3⟩ true),
    .edit (.attachRelationship ⟨2⟩ ⟨2⟩ ⟨3⟩ true),
    .edit (.addColumn ⟨3⟩ { name := "no", rank := some 1 }),
    .edit (.attachRelationship ⟨3⟩ ⟨3⟩ ⟨4⟩ true)]

/-- The shared column survives the first removal and goes with the second one. The number is then
all there is in the key of the lines. -/
theorem Op.removals_commute_sharing : ∃ s s₁ s₂ s₁₂ s₂₁ : Schema, s.Reachable ∧
    s.isLive ⟨1⟩ = true ∧ s.isLive ⟨2⟩ = true ∧ s.RanksSuffice ⟨3⟩ ∧
    (Op.removeRelationship ⟨1⟩).Leads s s₁ ∧ (Op.removeRelationship ⟨2⟩).Leads s₁ s₁₂ ∧
    (Op.removeRelationship ⟨2⟩).Leads s s₂ ∧ (Op.removeRelationship ⟨1⟩).Leads s₂ s₂₁ ∧
    (∀ r, s₁₂.relationships.contains r = true ↔
      s.relationships.contains r = true ∧ r ≠ ⟨1⟩ ∧ r ≠ ⟨2⟩) ∧
    s₁₂.tables = s₂₁.tables ∧ s₁₂.columns = s₂₁.columns ∧
    s₁₂.relationships.map Relationship.frame = s₂₁.relationships.map Relationship.frame ∧
    s₁₂.mappingsOf ⟨3⟩ = s₂₁.mappingsOf ⟨3⟩ ∧
    s₁.columns.contains ⟨3⟩ = true ∧ s₁₂.columns.contains ⟨3⟩ = false ∧
    s₁₂.rank? ⟨4⟩ = some 0 ∧ s₁₂.mappingsOf ⟨3⟩ = [⟨⟨4⟩, ⟨6⟩⟩] := by
  have hreach : Schema.Reachable ((Moment.start {}).run lineMoves).schema := ⟨{}, lineMoves, rfl⟩
  have hsuffice : ((Moment.start {}).run lineMoves).schema.RanksSuffice ⟨3⟩ :=
    .inl (by decide +kernel)
  have hlive : ((Moment.start {}).run lineMoves).schema.isLive ⟨1⟩ = true ∧
      ((Moment.start {}).run lineMoves).schema.isLive ⟨2⟩ = true := by decide +kernel
  obtain ⟨s₁, s₂, s₁₂, s₂₁, h₁, h₁₂, h₂, h₂₁, hremain, htables, hcolumns, hframes, -, hmaps⟩ :=
    Op.removals_commute hreach hlive.1 hlive.2 (by decide)
  refine ⟨_, s₁, s₂, s₁₂, s₂₁, hreach, hlive.1, hlive.2, hsuffice, h₁, h₁₂, h₂, h₂₁, hremain,
    htables, hcolumns, hframes, hmaps ⟨3⟩ hsuffice, ?_⟩
  rw [h₁₂.eq, h₁.eq]
  decide +kernel

end KeyedSchema
