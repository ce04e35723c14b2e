import KeyedSchema.Proofs.Foreseeing

/-!
# Connecting — what attaching without mapping leaves alone

A child at rest is caught up with for the sake of one relationship at most. That is the new one, if
it leads from the child to itself: then the child exports it as well, and it misses the whole key.
Catching up maps the key in it, to columns of the same table, and does nothing at the turns of the
other relationships.

- `Augments`     : what mapping columns in a relationship that is not identifying does, and what a
  turn of that relationship does;
- `LinkedToSelf` : what attaching a table to itself leaves alone.
-/

namespace KeyedSchema

namespace Schema

open Relation

variable {s s' s'' s₁ : Schema} {t p ch : TableId} {c x fk pk : ColumnId} {r r' : RelationshipId}
  {depth : Nat} {key : List ColumnId} {rs : List RelationshipId}

/-! ## Mapping in one relationship -/

/-- Whether all that is new are mappings of a relationship, and columns of a table that it maps. -/
structure Augments (r : RelationshipId) (t : TableId) (s s' : Schema) : Prop where
  column : ∀ c, s.columns.contains c = true → s'.columns.get? c = s.columns.get? c
  columnsOf : (s.columnsOf t).Sublist (s'.columnsOf t)
  elsewhere : ∀ t', t' ≠ t → s'.columnsOf t' = s.columnsOf t'
  mappingsOf : s.mappingsOf r ⊆ s'.mappingsOf r
  fresh : ∀ c, s'.columns.contains c = true →
    s.columns.contains c = true ∨ c ∈ (s'.mappingsOf r).map Mapping.fk
  others : ∀ r', r' ≠ r → s'.mappingsOf r' = s.mappingsOf r'

namespace Augments

theorem refl (r : RelationshipId) (t : TableId) (s : Schema) : Augments r t s s :=
  ⟨fun _ _ => rfl, .refl _, fun _ _ => rfl, List.Subset.refl _, fun _ => .inl, fun _ _ => rfl⟩

theorem contains (h : Augments r t s s') (hc : s.columns.contains c = true) :
    s'.columns.contains c = true := by
  obtain ⟨col, hcol⟩ := (Roster.contains_iff _ _).mp hc
  exact Roster.contains_of_get? ((h.column c hc).trans hcol)

theorem trans (h : Augments r t s s') (h' : Augments r t s' s'') : Augments r t s s'' where
  column c hc := (h'.column c (h.contains hc)).trans (h.column c hc)
  columnsOf := h.columnsOf.trans h'.columnsOf
  elsewhere t' hne := (h'.elsewhere t' hne).trans (h.elsewhere t' hne)
  mappingsOf := List.Subset.trans h.mappingsOf h'.mappingsOf
  fresh c hc := by
    rcases h'.fresh c hc with hc | hc
    · exact (h.fresh c hc).imp_right fun hin => List.map_subset _ h'.mappingsOf hin
    · exact .inr hc
  others r' hne := (h'.others r' hne).trans (h.others r' hne)

theorem rank? (h : Augments r t s s') (hc : s.columns.contains c = true) :
    s'.rank? c = s.rank? c := by
  unfold Schema.rank?
  rw [h.column c hc]

/-- Other relationships go on following a key. -/
theorem follows (h : Augments r t s s') (hs : s.Sound) (hne : r' ≠ r) (hf : Follows key r' s) :
    Follows key r' s' := by
  have hmappings := h.others r' hne
  exact ⟨hf.ordered.congr hmappings fun m hm => h.rank? (hs.pk_stored (hmappings ▸ hm)),
    fun x => by rw [hmappings, hf.mem_iff]⟩

end Augments

theorem augments_syncMappingOrder (r : RelationshipId) (t : TableId) (s : Schema) :
    Augments r t s (s.syncMappingOrder r) := by
  have hre := reranks_syncMappingOrder r s
  have hcolumns := syncMappingOrder_columns r s
  refine ⟨fun c _ => by rw [hcolumns], by rw [hre.columnsOf], fun t' _ => hre.columnsOf t',
    (hre.mappingsOf r).symm.subset, fun c hc => .inl (hcolumns ▸ hc), fun r' hne => ?_⟩
  rw [mappingsOf_syncMappingOrder, if_neg hne]

/-- An adopted column is there already; a new one is put into the child table. -/
theorem MapsColumn.augments (h : MapsColumn s r pk t fk s₁ s') (hs : s.Sound)
    (hch : s.child? r = some t) : Augments r t s s' := by
  have hr : s.relationships.contains r = true := contains_of_child? hch
  have hr₁ : s₁.relationships.contains r = true := by
    rw [(h.place_sound hs hch).2.1.frame.contains_relationship, hr]
  have hmappings (r' : RelationshipId) : s'.mappingsOf r' =
      if r' = r then s.mappingsOf r ++ [⟨pk, fk⟩] else s.mappingsOf r' := by
    rw [h.append, mappingsOf_appendMapping hr₁, h.mappingsOf_place, h.mappingsOf_place]
  have hcolumns : s'.columns = s₁.columns := h.append ▸ columns_appendMapping r _ s₁
  have hlisted (t' : TableId) : s'.columnsOf t' = s₁.columnsOf t' :=
    h.append ▸ columnsOf_appendMapping r _ s₁ t'
  have hmore : s.mappingsOf r ⊆ s'.mappingsOf r := by
    rw [hmappings, if_pos rfl]
    exact List.subset_append_left _ _
  have hothers : ∀ r', r' ≠ r → s'.mappingsOf r' = s.mappingsOf r' := fun r' hne => by
    rw [hmappings, if_neg hne]
  rcases h.place with ⟨rfl, -⟩ | ⟨rfl, i, -, key, -, rfl⟩
  · exact ⟨fun c _ => by rw [hcolumns], by rw [hlisted], fun t' _ => hlisted t', hmore,
      fun c hc => .inl (hcolumns ▸ hc), hothers⟩
  · have ht := hs.child_stored r t hch
    refine ⟨fun c hc => ?_, ?_, fun t' hne => ?_, hmore, fun c hc => ?_, hothers⟩
    · rw [hcolumns, get?_placeColumn, if_neg (hs.ne_nextColumn hc)]
    · rw [hlisted, columnsOf_placeColumn ht, if_pos rfl]
      exact List.sublist_insertIdx _ _ _
    · rw [hlisted, columnsOf_placeColumn ht, if_neg hne]
    · rw [hcolumns, contains_placeColumn, Bool.or_eq_true, decide_eq_true_eq] at hc
      rcases hc with rfl | hc
      · refine .inr (List.mem_map.mpr ⟨⟨pk, s.nextColumn⟩, ?_, rfl⟩)
        rw [hmappings, if_pos rfl]
        exact List.mem_append_right _ (List.mem_singleton_self _)
      · exact .inl hc

/-- How far mapping columns of `key` in a relationship has come. It maps no other columns, and the
tasks that are left only map columns or put the mappings in order. -/
structure Augmenting (key : List ColumnId) (r : RelationshipId) (t : TableId) (s₀ : Schema)
    (tasks : List Grow) (s : Schema) : Prop where
  sound : s.Sound
  grows : Grows s₀ s
  augments : Augments r t s₀ s
  within : ∀ m ∈ s.mappingsOf r, m.pk ∈ key
  ready : ∀ task ∈ tasks, task.Ready s
  tasks : ∀ task ∈ tasks, task = .sync r ∨ ∃ depth, ∃ x ∈ key, task = .map depth r x

/-- A relationship that is not identifying promotes nothing that it maps. -/
theorem Augmenting.step {s₀ : Schema} {task : Grow} {tasks : List Grow}
    (h : Augmenting key r t s₀ (task :: tasks) s) (hch : s₀.child? r = some t)
    (hplain : s₀.isIdentifying r = false) :
    Augmenting key r t s₀ ((task.step s).1 ++ tasks) (task.step s).2 := by
  have hready := h.ready task (List.mem_cons_self ..)
  obtain ⟨hs', hg, hnext⟩ := h.sound.grow_step hready
  have hready' : ∀ next ∈ (task.step s).1 ++ tasks, next.Ready (task.step s).2 := fun next hin => by
    rcases List.mem_append.mp hin with hin | hin
    · exact hnext next hin
    · exact hg.ready (h.ready next (List.mem_cons_of_mem _ hin))
  have hlater : ∀ next ∈ tasks, next = .sync r ∨ ∃ depth, ∃ x ∈ key, next = .map depth r x :=
    fun next hin => h.tasks next (List.mem_cons_of_mem _ hin)
  rcases h.tasks task (List.mem_cons_self ..) with rfl | ⟨depth, x, hx, rfl⟩
  · refine ⟨hs', h.grows.trans hg, h.augments.trans (augments_syncMappingOrder r t s),
      fun m hm => ?_, hready', hlater⟩
    exact h.within m (((reranks_syncMappingOrder r s).mappingsOf r).mem_iff.mp hm)
  · have hch' := (h.grows.frame.child? r).trans hch
    have hplain' := (h.grows.frame.isIdentifying r).trans hplain
    obtain ⟨_, _, -, -, hpk⟩ := h.ready _ (List.mem_cons_self ..)
    refine ⟨hs', h.grows.trans hg, h.augments.trans ?_, fun m hm => ?_, hready', fun next hin => ?_⟩
    · simp only [Grow.step]
      split
      · exact .refl r t s
      · obtain ⟨s₁, hm⟩ := h.sound.mapColumn hch' hpk
        exact hm.augments h.sound hch'
    · rcases (h.sound.mem_pks_map hready).mp (List.mem_map_of_mem hm) with hin | ⟨-, heq⟩
      · obtain ⟨m', hm', heq⟩ := List.mem_map.mp hin
        exact heq ▸ h.within m' hm'
      · exact heq ▸ hx
    · rcases List.mem_append.mp hin with hin | hin
      · simp only [Grow.step, hplain', Bool.false_eq_true, if_false] at hin
        split at hin
        · exact absurd hin List.not_mem_nil
        · exact .inl (List.mem_singleton.mp hin)
      · exact hlater next hin

/-! ## Turns -/

/-- The turn of a relationship from a table to itself: it has no strays, so it maps what it misses of
the key. -/
theorem Reconciles.augments (h : Reconciles key r s s') (hs : s.Sound) (hr : Reconcilable key t r s)
    (hch : s.child? r = some t) (hplain : s.isIdentifying r = false)
    (hwithin : ∀ m ∈ s.mappingsOf r, m.pk ∈ key) :
    Augments r t s s' ∧ ∀ m ∈ s'.mappingsOf r, m.pk ∈ key := by
  obtain ⟨s₁, s₂, hw₁, -, hw₂, rfl⟩ := h
  obtain rfl : s = s₁ := (worksOff_sweep_of_no_strays hwithin).unique hw₁
  have hend := hw₂.invariant_all (J := Augmenting key r t s)
    (fun _ _ _ h => h.step hch hplain) ?_
  · have hre := reranks_syncMappingOrder r s₂
    exact ⟨hend.augments.trans (augments_syncMappingOrder r t s₂),
      fun m hm => hend.within m ((hre.mappingsOf r).mem_iff.mp hm)⟩
  · refine ⟨hs, .refl s, .refl r t s, hwithin, fun task ht => ?_, fun task ht => ?_⟩
    · obtain ⟨x, hx, rfl⟩ := List.mem_map.mp ht
      exact hr.ready _ hx
    · obtain ⟨x, hx, rfl⟩ := List.mem_map.mp ht
      exact .inr ⟨_, x, hx, rfl⟩

/-- Whether a relationship has become live from a table to itself, and all else that is new are
columns of the table that it maps. What is left alone are stored columns, the lists of other tables
and the order of the columns in the table's own, and other relationships; mappings of those that the
table exports and that are not live may have been put in order. -/
structure LinkedToSelf (r : RelationshipId) (t : TableId) (s s' : Schema) : Prop where
  isLive : ∀ r', s'.isLive r' = (decide (r' = r) || s.isLive r')
  parent : s'.parent? r = some t
  child : s'.child? r = some t
  column : ∀ c, s.columns.contains c = true → s'.columns.get? c = s.columns.get? c
  columnsOf : (s.columnsOf t).Sublist (s'.columnsOf t)
  elsewhere : ∀ t', t' ≠ t → s'.columnsOf t' = s.columnsOf t'
  fresh : ∀ c, s'.columns.contains c = true →
    s.columns.contains c = true ∨ c ∈ (s'.mappingsOf r).map Mapping.fk
  others : ∀ r', r' ≠ r → (r' ∈ s.exportsOf t → s.isLive r' = true) →
    s'.relationships.get? r' = s.relationships.get? r'
  halfway : ∀ r', r' ≠ r → (s'.mappingsOf r').Perm (s.mappingsOf r')

theorem LinkedToSelf.amid {s₂ : Schema} (h : LinkedToSelf r t s₁ s₂) (h₁ : SameStock s s₁)
    (h₂ : SameStock s₂ s') : LinkedToSelf r t s s' where
  isLive r' := by rw [h₂.shape.isLive, h.isLive, h₁.shape.isLive]
  parent := (h₂.shape.parent? r).trans h.parent
  child := (h₂.shape.child? r).trans h.child
  column c hc := by rw [h₂.columns, h.column c (h₁.columns ▸ hc), h₁.columns]
  columnsOf := by rw [h₂.columnsOf, ← h₁.columnsOf]; exact h.columnsOf
  elsewhere t' hne := by rw [h₂.columnsOf, h.elsewhere t' hne, h₁.columnsOf]
  fresh c hc := by
    have hmappings : s'.mappingsOf r = s₂.mappingsOf r := by
      unfold Schema.mappingsOf
      rw [h₂.relationships]
    rw [hmappings, ← h₁.columns]
    exact h.fresh c (h₂.columns ▸ hc)
  others r' hne hlive := by
    have hlive₁ : r' ∈ s₁.exportsOf t → s₁.isLive r' = true := fun hin => by
      rw [h₁.shape.exportsOf] at hin
      rw [h₁.shape.isLive, hlive hin]
    rw [h₂.relationships, h.others r' hne hlive₁, h₁.relationships]
  halfway r' hne :=
    ((h₂.shape.mappingsOf r').trans (h.halfway r' hne)).trans (h₁.shape.mappingsOf r')

/-! ## Catching up with it -/

section

variable (h : Linked r t t s s₁) (hs : s.Sound) (hs₁ : s₁.Sound)
  (hneeds : s.needsReconcile t = false)

include h hneeds

theorem Linked.ranks (i : Nat) (c : ColumnId) (hc : (s₁.primaryKey t)[i]? = some c) :
    s₁.rank? c = some i := by
  have hkey : s₁.primaryKey t = s.primaryKey t :=
    primaryKey_congr (h.columnsOf t) fun c _ => rank?_of_columns h.columns c
  rw [rank?_of_columns h.columns]
  exact (needsReconcile_eq_false.mp hneeds).1 i c (hkey ▸ hc)

include hs

theorem Linked.mappings_eq (hne : r' ≠ r) (hl : s.isLive r' = true) (hp : s.parent? r' = some t) :
    (s₁.mappingsOf r').map Mapping.pk = s₁.primaryKey t := by
  have hkey : s₁.primaryKey t = s.primaryKey t :=
    primaryKey_congr (h.columnsOf t) fun c _ => rank?_of_columns h.columns c
  rw [h.mappingsOf_of_ne hne, hkey]
  exact (needsReconcile_eq_false.mp hneeds).2 r' ((hs.mem_liveExportsOf_iff r' t).mpr ⟨hl, hp⟩)

include hs₁

/-- Other relationships are in order already, unless they are registered with the table and not
live. -/
theorem Linked.mappingsOf_normalizeKey (hne : r' ≠ r)
    (hlive : r' ∈ s.exportsOf t → s.isLive r' = true) :
    (s₁.normalizeKey t none).mappingsOf r' = s₁.mappingsOf r' := by
  by_cases hin : r' ∈ s.exportsOf t
  · have hl := hlive hin
    have hp := ((hs.mem_liveExportsOf_iff r' t).mp (mem_liveExportsOf.mpr ⟨hin, hl⟩)).2
    exact Schema.mappingsOf_normalizeKey_of_inOrder hs₁ (h.ranks hneeds)
      (inOrder_of_mappings_eq (h.mappings_eq hs hneeds hne hl hp))
  · exact mappingsOf_normalizeKey_of_notMem none fun hin' => hin ((h.exported r' hne t).mp hin')

theorem Linked.follows_normalizeKey (hne : r' ≠ r) (hl : s.isLive r' = true)
    (hp : s.parent? r' = some t) :
    Follows ((s₁.normalizeKey t none).primaryKey t) r' (s₁.normalizeKey t none) := by
  have hpks : ((s₁.normalizeKey t none).mappingsOf r').map Mapping.pk =
      (s₁.normalizeKey t none).primaryKey t := by
    rw [h.mappingsOf_normalizeKey hs hs₁ hneeds hne fun _ => hl, hs₁.primaryKey_normalizeKey]
    exact h.mappings_eq hs hneeds hne hl hp
  exact ⟨inOrder_of_mappings_eq hpks, fun x => by rw [hpks]⟩

end

end Schema

end KeyedSchema
