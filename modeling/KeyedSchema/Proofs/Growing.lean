import KeyedSchema.Proofs.Graft
import KeyedSchema.Proofs.Lookups
import KeyedSchema.Proofs.Worklist

/-!
# Growing — the tasks that promotions consist of

Columns, key columns and mappings come in four kinds of tasks, `Grow`; those that may lead to
further promotions say how deep these may be nested.

- `Grows`     : what every run of such tasks does to a sound schema;
- `Grow.Ready` : what a task needs, which no other task takes away;
- `promoteWithin_worksOff`, `mapIfMissing_worksOff` : promotions and mappings are such runs, and
  none of the look-ups on their way fails.
-/

namespace KeyedSchema

namespace Schema

/-- Map a key column in a relationship to the child column of the same name, or to a new one. The
child column is yielded. -/
def mapColumn (r : RelationshipId) (pk : ColumnId) (s : Schema) : ColumnId × Schema :=
  match s.relationships.get? r, s.columns.get? pk with
  | some rel, some key =>
      match rel.child with
      | none => (pk, s)
      | some child =>
          match s.adoptable? rel child pk key.name with
          | some c => (c, s.appendMapping r ⟨pk, c⟩)
          | none =>
              let i :=
                if rel.identifying then s.keyInsertPosition child else (s.columnsOf child).length
              (s.nextColumn, (s.placeColumn child i (.derivedFrom key)).appendMapping r
                ⟨pk, s.nextColumn⟩)
  | _, _ => (pk, s)

end Schema

/-- A task of a promotion. -/
inductive Grow
  /-- Put a column at the end of its key unless it is in it. -/
  | promote (depth : Nat) (c : ColumnId)
  /-- Make room for a column that has got its rank, and map it in the live relationships. -/
  | join (depth : Nat) (c : ColumnId)
  /-- Map a key column in a relationship unless it is mapped. -/
  | map (depth : Nat) (r : RelationshipId) (pk : ColumnId)
  /-- Bring the mappings of a relationship into key order. -/
  | sync (r : RelationshipId)
  deriving DecidableEq, Repr

namespace Grow

def step : Grow → Schema → List Grow × Schema
  | promote 0 _, s => ([], s)
  | promote (depth + 1) c, s =>
      match s.owner? c, s.rank? c with
      | some t, none => ([join depth c], s.changeRank c none (some (s.nextRank t)))
      | _, _ => ([], s)
  | join depth c, s =>
      match s.owner? c with
      | none => ([], s)
      | some t =>
          if s.cascades t then
            ((s.liveExportsOf t).map fun r => map depth r c, s.normalizeKey t (some c))
          else ([], s)
  | map depth r pk, s =>
      if pk ∈ (s.mappingsOf r).map Mapping.pk then ([], s)
      else
        let (fk, s') := s.mapColumn r pk
        (if s.isIdentifying r then [promote depth fk, sync r] else [sync r], s')
  | sync r, s => ([], s.syncMappingOrder r)

/-- What has to be there for a task: the column that joins a key; of a mapping, both ends of the
relationship and a column of its parent. -/
def Ready (s : Schema) : Grow → Prop
  | promote _ c => s.columns.contains c = true
  | join _ c => s.columns.contains c = true
  | map _ r pk => ∃ p ch, s.parent? r = some p ∧ s.child? r = some ch ∧ s.owner? pk = some p
  | sync _ => True

@[simp] theorem ready_promote (s : Schema) (depth : Nat) (c : ColumnId) :
    (promote depth c).Ready s ↔ s.columns.contains c = true := Iff.rfl

@[simp] theorem ready_join (s : Schema) (depth : Nat) (c : ColumnId) :
    (join depth c).Ready s ↔ s.columns.contains c = true := Iff.rfl

end Grow

namespace Schema

variable {s s' s'' : Schema} {t p ch : TableId} {c pk : ColumnId} {r : RelationshipId}
  {ts : List Grow}

/-! ## What is there stays -/

/-- What a run of promotions does to a schema: columns, key columns and mappings may come, ranks
may change, and nothing leaves. -/
structure Grows (s s' : Schema) : Prop where
  frame : SameFrame s s'
  column : ∀ c col, s.columns.get? c = some col →
    ∃ rank, s'.columns.get? c = some { col with rank } ∧ (col.rank.isSome → rank.isSome)
  mappingsOf : ∀ r, s.mappingsOf r ⊆ s'.mappingsOf r
  lastColumn : s.lastColumn ≤ s'.lastColumn
  /-- No identifier comes back. -/
  fresh : ∀ c, s'.columns.contains c = true → s.columns.contains c = true ∨ s.lastColumn < c.val

namespace Grows

@[refl] theorem refl (s : Schema) : Grows s s :=
  ⟨.refl s, fun _ col h => ⟨col.rank, h, id⟩, fun _ _ h => h, Nat.le_refl _, fun _ h => .inl h⟩

theorem trans (h : Grows s s') (h' : Grows s' s'') : Grows s s'' where
  frame := h.frame.trans h'.frame
  column c col hc := by
    obtain ⟨rank₁, hc₁, hk₁⟩ := h.column c col hc
    obtain ⟨rank₂, hc₂, hk₂⟩ := h'.column c _ hc₁
    exact ⟨rank₂, hc₂, fun hk => hk₂ (hk₁ hk)⟩
  mappingsOf r _ hm := h'.mappingsOf r (h.mappingsOf r hm)
  lastColumn := Nat.le_trans h.lastColumn h'.lastColumn
  fresh c hc := by
    rcases h'.fresh c hc with hc | hlt
    · exact h.fresh c hc
    · exact .inr (Nat.lt_of_le_of_lt h.lastColumn hlt)

theorem contains (h : Grows s s') (hc : s.columns.contains c = true) :
    s'.columns.contains c = true := by
  obtain ⟨col, hcol⟩ := (Roster.contains_iff _ _).mp hc
  obtain ⟨rank, hcol', -⟩ := h.column c col hcol
  exact Roster.contains_of_get? hcol'

theorem owner? (h : Grows s s') (hc : s.columns.contains c = true) : s'.owner? c = s.owner? c := by
  obtain ⟨col, hcol⟩ := (Roster.contains_iff _ _).mp hc
  obtain ⟨rank, hcol', -⟩ := h.column c col hcol
  simp [Schema.owner?, hcol, hcol']

theorem isKey (h : Grows s s') (hc : s.isKey c = true) : s'.isKey c = true := by
  obtain ⟨col, hcol⟩ := (Roster.contains_iff _ _).mp (contains_of_isKey hc)
  obtain ⟨rank, hcol', hk⟩ := h.column c col hcol
  rw [isKey_of_get? hcol'] at *
  rw [isKey_of_get? hcol] at hc
  exact hk hc

theorem ready (h : Grows s s') {task : Grow} (ht : task.Ready s) : task.Ready s' := by
  cases task with
  | promote depth c => exact h.contains ht
  | join depth c => exact h.contains ht
  | map depth r pk =>
      obtain ⟨p, ch, hp, hch, hpk⟩ := ht
      refine ⟨p, ch, (h.frame.parent? r).trans hp, (h.frame.child? r).trans hch, ?_⟩
      rw [h.owner? (contains_of_owner? hpk), hpk]
  | sync r => trivial

end Grows

theorem Reranks.grows (h : Reranks s s') (hk : ∀ c, s.isKey c = true → s'.isKey c = true) :
    Grows s s' := by
  refine ⟨h.sameFrame, fun c col hc => ?_, fun r => (h.mappingsOf r).symm.subset,
    Nat.le_of_eq h.lastColumn.symm, fun c hc => .inl (h.sameShape.contains_column c ▸ hc)⟩
  obtain ⟨rank, hc'⟩ := h.column hc
  refine ⟨rank, hc', fun hr => ?_⟩
  have := hk c (by rw [isKey_of_get? hc]; exact hr)
  rwa [isKey_of_get? hc'] at this

theorem SameObjects.grows (h : SameObjects s s') : Grows s s' :=
  h.reranks.grows fun c hc => (isKey_congr (h.rank? c)).trans hc

theorem grows_changeRank (hc : s.columns.contains c = true) (old : Option Nat) (k : Nat) :
    Grows s (s.changeRank c old (some k)) := by
  refine (reranks_changeRank c old (some k) s).grows fun c' hc' => ?_
  unfold isKey at hc' ⊢
  rw [rank?_changeRank c old (some k) s hc]
  split
  · rfl
  · exact hc'

theorem Sound.grows_normalizeKey (hs : s.Sound) (t : TableId) (placed : Option ColumnId) :
    Grows s (s.normalizeKey t placed) :=
  (reranks_normalizeKey t placed s).grows fun c hc => (hs.isKey_normalizeKey t placed c).trans hc

theorem grows_syncMappingOrder (r : RelationshipId) (s : Schema) :
    Grows s (s.syncMappingOrder r) :=
  (reranks_syncMappingOrder r s).grows fun c hc => (isKey_syncMappingOrder r s c).trans hc

theorem Sound.grows_placeColumn (hs : s.Sound) (t : TableId) (i : Nat) (col : Column) :
    Grows s (s.placeColumn t i col) := by
  have hlast : (s.placeColumn t i col).lastColumn = s.lastColumn + 1 :=
    (placeColumn_objects t i col s).lastColumn
  refine ⟨sameFrame_placeColumn t i col s, fun c col' hc => ⟨col'.rank, ?_, id⟩, fun r => ?_,
    by omega, fun c hc => ?_⟩
  · rw [get?_placeColumn, if_neg (hs.ne_nextColumn (Roster.contains_of_get? hc)), hc]
  · rw [mappingsOf_placeColumn]
    exact fun _ h => h
  · rw [contains_placeColumn, Bool.or_eq_true, decide_eq_true_eq] at hc
    rcases hc with rfl | hc
    · exact .inr (Nat.lt_succ_self _)
    · exact .inl hc

theorem grows_appendMapping (hr : s.relationships.contains r = true) (m : Mapping) :
    Grows s (s.appendMapping r m) := by
  refine ⟨sameFrame_appendMapping r m s, fun c col hc => ⟨col.rank, ?_, id⟩, fun r' m' hm' => ?_,
    Nat.le_of_eq (appendMapping_objects r m s).lastColumn.symm,
    fun c hc => .inl (columns_appendMapping r m s ▸ hc)⟩
  · rw [columns_appendMapping, hc]
  · rw [mappingsOf_appendMapping hr]
    split
    · rename_i h
      exact List.mem_append_left _ (h ▸ hm')
    · exact hm'

/-! ## Mapping one column -/

/-- What mapping a column comes to: an adopted or a new child column, and one mapping more. -/
structure MapsColumn (s : Schema) (r : RelationshipId) (pk : ColumnId) (ch : TableId)
    (fk : ColumnId) (s₁ s' : Schema) : Prop where
  /-- The schema that has the child column. -/
  place : (s₁ = s ∧ s.owner? fk = some ch) ∨
    (fk = s.nextColumn ∧ ∃ i ≤ (s.columnsOf ch).length, ∃ key, s.columns.get? pk = some key ∧
      s₁ = s.placeColumn ch i (.derivedFrom key))
  append : s' = s₁.appendMapping r ⟨pk, fk⟩

theorem Sound.mapColumn (hs : s.Sound) (hch : s.child? r = some ch)
    (hpk : s.owner? pk = some p) :
    ∃ s₁, MapsColumn s r pk ch (s.mapColumn r pk).1 s₁ (s.mapColumn r pk).2 := by
  obtain ⟨rel, hrel, hrelch⟩ := Option.bind_eq_some_iff.mp hch
  obtain ⟨key, hkey⟩ := (Roster.contains_iff _ _).mp (contains_of_owner? hpk)
  unfold Schema.mapColumn
  simp only [hrel, hkey, hrelch]
  cases had : s.adoptable? rel ch pk key.name with
  | some c =>
      refine ⟨s, .inl ⟨rfl, (hs.listed ch c).mp ?_⟩, rfl⟩
      exact List.mem_of_find?_eq_some had
  | none =>
      refine ⟨_, .inr ⟨rfl, _, ?_, key, hkey, rfl⟩, rfl⟩
      split
      · exact keyInsertPosition_le s ch
      · exact Nat.le_refl _

namespace MapsColumn

variable {fk : ColumnId} {s₁ : Schema}

theorem place_sound (h : MapsColumn s r pk ch fk s₁ s') (hs : s.Sound)
    (hch : s.child? r = some ch) : s₁.Sound ∧ Grows s s₁ ∧ s₁.owner? fk = some ch := by
  rcases h.place with ⟨rfl, hfk⟩ | ⟨rfl, i, hi, key, -, rfl⟩
  · exact ⟨hs, .refl s₁, hfk⟩
  · refine ⟨hs.placeColumn (hs.child_stored r ch hch) hi _, hs.grows_placeColumn ch i _, ?_⟩
    rw [owner?_placeColumn, if_pos rfl]

theorem mappingsOf_place (h : MapsColumn s r pk ch fk s₁ s') (r' : RelationshipId) :
    s₁.mappingsOf r' = s.mappingsOf r' := by
  rcases h.place with ⟨rfl, -⟩ | ⟨-, i, -, key, -, rfl⟩
  · rfl
  · exact mappingsOf_placeColumn ..

theorem sound (h : MapsColumn s r pk ch fk s₁ s') (hs : s.Sound) (hp : s.parent? r = some p)
    (hch : s.child? r = some ch) (hpk : s.owner? pk = some p)
    (hnew : pk ∉ (s.mappingsOf r).map Mapping.pk) :
    s'.Sound ∧ Grows s s' ∧ s'.owner? fk = some ch := by
  obtain ⟨hs₁, hg, hfk⟩ := h.place_sound hs hch
  have hp₁ : s₁.parent? r = some p := (hg.frame.parent? r).trans hp
  have hch₁ : s₁.child? r = some ch := (hg.frame.child? r).trans hch
  have hpk₁ : s₁.owner? pk = some p := (hg.owner? (contains_of_owner? hpk)).trans hpk
  have hnew₁ : pk ∉ (s₁.mappingsOf r).map Mapping.pk := by rwa [h.mappingsOf_place]
  rw [h.append]
  refine ⟨hs₁.appendMapping hp₁ hch₁ hpk₁ hfk hnew₁,
    hg.trans (grows_appendMapping (contains_of_parent? hp₁) _), ?_⟩
  rw [owner?_appendMapping, hfk]

end MapsColumn

/-! ## Steps and runs -/

/-- A task that is ready keeps a schema sound, takes nothing out and leads to ready tasks. -/
theorem Sound.grow_step (hs : s.Sound) {task : Grow} (ht : task.Ready s) :
    (task.step s).2.Sound ∧ Grows s (task.step s).2 ∧
      ∀ next ∈ (task.step s).1, next.Ready (task.step s).2 := by
  cases task with
  | promote depth c =>
      cases depth with
      | zero => exact ⟨hs, .refl s, by simp [Grow.step]⟩
      | succ depth =>
          simp only [Grow.step]
          split
          · rename_i t _ _
            have hg := grows_changeRank ht none (s.nextRank t)
            refine ⟨(reranks_changeRank _ _ _ s).sound hs, hg, ?_⟩
            intro next hnext
            obtain rfl := List.mem_singleton.mp hnext
            exact hg.contains ht
          · exact ⟨hs, .refl s, by simp⟩
  | join depth c =>
      simp only [Grow.step]
      split
      · exact ⟨hs, .refl s, by simp⟩
      · rename_i t hown
        split
        · have hg := hs.grows_normalizeKey t (some c)
          refine ⟨(reranks_normalizeKey t (some c) s).sound hs, hg, ?_⟩
          intro next hnext
          obtain ⟨r, hr, rfl⟩ := List.mem_map.mp hnext
          obtain ⟨hl, hp⟩ := (hs.mem_liveExportsOf_iff r t).mp hr
          obtain ⟨p, ch, -, hch, -, -⟩ := isLive_iff.mp hl
          -- every relationship that `t` exports may map a column of `t`
          have hready : (Grow.map depth r c).Ready s := ⟨t, ch, hp, hch, hown⟩
          exact hg.ready hready
        · exact ⟨hs, .refl s, by simp⟩
  | map depth r pk =>
      obtain ⟨p, ch, hp, hch, hpk⟩ := ht
      simp only [Grow.step]
      split
      · exact ⟨hs, .refl s, by simp⟩
      · rename_i hnew
        obtain ⟨s₁, hm⟩ := hs.mapColumn hch hpk
        obtain ⟨hs', hg, hfk⟩ := hm.sound hs hp hch hpk hnew
        refine ⟨hs', hg, ?_⟩
        intro next hnext
        split at hnext
        · rcases List.mem_cons.mp hnext with rfl | hnext
          · exact contains_of_owner? hfk
          · obtain rfl := List.mem_singleton.mp hnext
            trivial
        · obtain rfl := List.mem_singleton.mp hnext
          trivial
  | sync r =>
      exact ⟨(reranks_syncMappingOrder r s).sound hs, grows_syncMappingOrder r s, by simp [Grow.step]⟩

/-- Whether a relation between schemas covers promotions: it can be chained, and it holds across every
change that a task makes. -/
structure CoversPromotion (R : Schema → Schema → Prop) : Prop where
  refl (s : Schema) : R s s
  trans {s s' s'' : Schema} (h : R s s') (h' : R s' s'') : R s s''
  changeRank (c : ColumnId) (old new : Option Nat) (s : Schema) : R s (s.changeRank c old new)
  normalizeKey (t : TableId) (placed : Option ColumnId) (s : Schema) : R s (s.normalizeKey t placed)
  placeColumn (t : TableId) (i : Nat) (col : Column) (s : Schema) : R s (s.placeColumn t i col)
  appendMapping (r : RelationshipId) (m : Mapping) (s : Schema) : R s (s.appendMapping r m)
  syncMappingOrder (r : RelationshipId) (s : Schema) : R s (s.syncMappingOrder r)

namespace CoversPromotion

variable {R : Schema → Schema → Prop}

theorem mapColumn (hR : CoversPromotion R) (r : RelationshipId) (pk : ColumnId) (s : Schema) :
    R s (s.mapColumn r pk).2 := by
  unfold Schema.mapColumn
  split
  · split
    · exact hR.refl s
    · split
      · exact hR.appendMapping ..
      · exact hR.trans (hR.placeColumn ..) (hR.appendMapping ..)
  · exact hR.refl s

theorem step (hR : CoversPromotion R) (task : Grow) (s : Schema) : R s (task.step s).2 := by
  cases task with
  | promote depth c =>
      cases depth with
      | zero => exact hR.refl s
      | succ depth =>
          simp only [Grow.step]
          split
          · exact hR.changeRank ..
          · exact hR.refl s
  | join depth c =>
      simp only [Grow.step]
      split
      · exact hR.refl s
      · split
        · exact hR.normalizeKey ..
        · exact hR.refl s
  | map depth r pk =>
      simp only [Grow.step]
      split
      · exact hR.refl s
      · exact hR.mapColumn r pk s
  | sync r => exact hR.syncMappingOrder r s

theorem run (hR : CoversPromotion R) (h : WorksOff Grow.step ts s s') : R s s' :=
  h.relation hR.refl (fun _ _ _ => hR.trans) hR.step

end CoversPromotion

section

variable {m : Mapping} {task : Grow} {depth : Nat}

/-- The mappings of a relationship after one more column is mapped. -/
theorem Sound.mappingsOf_mapColumn (hs : s.Sound) (hready : (Grow.map depth r pk).Ready s)
    (r' : RelationshipId) : (s.mapColumn r pk).2.mappingsOf r' =
      if r' = r then s.mappingsOf r ++ [⟨pk, (s.mapColumn r pk).1⟩] else s.mappingsOf r' := by
  obtain ⟨p, ch, hp, hch, hpk⟩ := hready
  obtain ⟨s₁, h⟩ := hs.mapColumn hch hpk
  have hr : s₁.relationships.contains r = true :=
    contains_of_parent? (((h.place_sound hs hch).2.1.frame.parent? r).trans hp)
  rw [h.append, mappingsOf_appendMapping hr, h.mappingsOf_place, h.mappingsOf_place]

theorem Sound.mem_mappingsOf_mapColumn (hs : s.Sound) (hready : (Grow.map depth r pk).Ready s)
    {r' : RelationshipId} (hm : m ∈ (s.mapColumn r pk).2.mappingsOf r') :
    m ∈ s.mappingsOf r' ∨ (r' = r ∧ m = ⟨pk, (s.mapColumn r pk).1⟩) := by
  rw [hs.mappingsOf_mapColumn hready] at hm
  split at hm
  · rename_i heq
    exact (List.mem_append.mp hm).imp (heq ▸ ·) fun hm => ⟨heq, List.mem_singleton.mp hm⟩
  · exact .inl hm

/-- Mapping a column in one relationship leaves the mappings of the others alone. -/
theorem Sound.mappingsOf_map_of_ne (hs : s.Sound) (hready : (Grow.map depth r pk).Ready s)
    {r' : RelationshipId} (hne : r' ≠ r) :
    ((Grow.map depth r pk).step s).2.mappingsOf r' = s.mappingsOf r' := by
  simp only [Grow.step]
  split
  · rfl
  · rw [hs.mappingsOf_mapColumn hready, if_neg hne]

/-- After a column has been mapped, a relationship maps it besides the columns that it did. -/
theorem Sound.mem_pks_map (hs : s.Sound) (hready : (Grow.map depth r pk).Ready s)
    {r' : RelationshipId} {x : ColumnId} :
    x ∈ (((Grow.map depth r pk).step s).2.mappingsOf r').map Mapping.pk ↔
      x ∈ (s.mappingsOf r').map Mapping.pk ∨ (r' = r ∧ x = pk) := by
  simp only [Grow.step]
  split
  · rename_i hin
    refine ⟨.inl, ?_⟩
    rintro (hx | ⟨rfl, rfl⟩)
    · exact hx
    · exact hin
  · rw [hs.mappingsOf_mapColumn hready]
    split <;> simp [*]

/-- A task adds mappings to a relationship only by mapping their columns in it. -/
theorem Sound.mem_mappingsOf_grow (hs : s.Sound) (hready : task.Ready s)
    (hm : m ∈ (task.step s).2.mappingsOf r) :
    m ∈ s.mappingsOf r ∨ ∃ depth, task = .map depth r m.pk := by
  cases task with
  | promote depth c =>
      cases depth with
      | zero => exact .inl hm
      | succ depth =>
          simp only [Grow.step] at hm
          split at hm
          · exact .inl (((reranks_changeRank ..).mappingsOf r).subset hm)
          · exact .inl hm
  | join depth c =>
      simp only [Grow.step] at hm
      split at hm
      · exact .inl hm
      · split at hm
        · exact .inl (((reranks_normalizeKey ..).mappingsOf r).subset hm)
        · exact .inl hm
  | map depth r' pk =>
      simp only [Grow.step] at hm
      split at hm
      · exact .inl hm
      · rcases hs.mem_mappingsOf_mapColumn hready hm with hm | ⟨rfl, rfl⟩
        · exact .inl hm
        · exact .inr ⟨depth, rfl⟩
  | sync r' => exact .inl (((reranks_syncMappingOrder r' s).mappingsOf r).subset hm)

/-- Only a column that was outside of its key comes to join it. -/
theorem not_isKey_of_join_mem {depth : Nat} {x : ColumnId} (h : .join depth x ∈ (task.step s).1) :
    s.isKey x = false := by
  cases task with
  | promote depth' c =>
      cases depth' with
      | zero => exact absurd h List.not_mem_nil
      | succ depth' =>
          simp only [Grow.step] at h
          split at h
          · rename_i hrank
            obtain ⟨-, rfl⟩ := Grow.join.inj (List.mem_singleton.mp h)
            rw [isKey, hrank]
            rfl
          · exact absurd h List.not_mem_nil
  | join depth' c =>
      simp only [Grow.step] at h
      split at h
      · exact absurd h List.not_mem_nil
      · split at h
        · simp at h
        · exact absurd h List.not_mem_nil
  | map depth' r c =>
      simp only [Grow.step] at h
      split at h
      · exact absurd h List.not_mem_nil
      · split at h <;> simp at h
  | sync r => exact absurd h List.not_mem_nil

/-- Only a column that joins its key comes to be mapped. -/
theorem eq_join_of_map_mem {depth : Nat} {x : ColumnId} (h : .map depth r x ∈ (task.step s).1) :
    task = .join depth x := by
  cases task with
  | promote depth' c =>
      cases depth' with
      | zero => exact absurd h List.not_mem_nil
      | succ depth' =>
          simp only [Grow.step] at h
          split at h
          · simp at h
          · exact absurd h List.not_mem_nil
  | join depth' c =>
      simp only [Grow.step] at h
      split at h
      · exact absurd h List.not_mem_nil
      · split at h
        · obtain ⟨r', -, heq⟩ := List.mem_map.mp h
          obtain ⟨rfl, -, rfl⟩ := Grow.map.inj heq
          rfl
        · exact absurd h List.not_mem_nil
  | map depth' r' c =>
      simp only [Grow.step] at h
      split at h
      · exact absurd h List.not_mem_nil
      · split at h <;> simp at h
  | sync r' => exact absurd h List.not_mem_nil

/-- A task puts a column into its key only by promoting it. -/
theorem Sound.isKey_grow (hs : s.Sound) (hready : task.Ready s)
    (hk : (task.step s).2.isKey c = true) :
    s.isKey c = true ∨ ∃ depth, task = .promote depth c := by
  cases task with
  | promote depth c' =>
      cases depth with
      | zero => exact .inl hk
      | succ depth =>
          simp only [Grow.step] at hk
          split at hk
          · unfold isKey at hk ⊢
            rw [rank?_changeRank c' _ _ s hready] at hk
            split at hk
            · rename_i heq
              exact .inr ⟨depth + 1, heq ▸ rfl⟩
            · exact .inl hk
          · exact .inl hk
  | join depth c' =>
      simp only [Grow.step] at hk
      split at hk
      · exact .inl hk
      · split at hk
        · exact .inl ((hs.isKey_normalizeKey ..).symm.trans hk)
        · exact .inl hk
  | map depth r pk =>
      obtain ⟨p, ch, -, hch, hpk⟩ := hready
      obtain ⟨s₁, hmaps⟩ := hs.mapColumn hch hpk
      simp only [Grow.step] at hk
      split at hk
      · exact .inl hk
      · refine .inl ?_
        unfold isKey at hk ⊢
        rw [hmaps.append, rank?_appendMapping] at hk
        -- a child column that is new is outside of the key
        rcases hmaps.place with ⟨rfl, -⟩ | ⟨-, i, -, key, -, rfl⟩
        · exact hk
        · rw [rank?_placeColumn] at hk
          split at hk
          · exact absurd hk Bool.noConfusion
          · exact hk
  | sync r => exact .inl ((isKey_syncMappingOrder r s c).symm.trans hk)

end

/-- What a run of promotions starts from and keeps: a sound schema in which every task is ready. -/
structure Growable (s₀ : Schema) (ts : List Grow) (s : Schema) : Prop where
  sound : s.Sound
  grows : Grows s₀ s
  ready : ∀ task ∈ ts, task.Ready s

theorem Growable.step {s₀ : Schema} {task : Grow} (h : Growable s₀ (task :: ts) s) :
    Growable s₀ ((task.step s).1 ++ ts) (task.step s).2 := by
  obtain ⟨hs', hg, hnext⟩ := h.sound.grow_step (h.ready task (List.mem_cons_self ..))
  refine ⟨hs', h.grows.trans hg, fun next hm => ?_⟩
  rcases List.mem_append.mp hm with hm | hm
  · exact hnext next hm
  · exact hg.ready (h.ready next (List.mem_cons_of_mem _ hm))

theorem Sound.grow (hs : s.Sound) (hready : ∀ task ∈ ts, task.Ready s)
    (h : WorksOff Grow.step ts s s') : s'.Sound ∧ Grows s s' := by
  have h' := h.invariant_all (J := Growable s) (fun _ _ _ hJ => hJ.step) ⟨hs, .refl s, hready⟩
  exact ⟨h'.sound, h'.grows⟩

end Schema

/-! ## The edits are runs of tasks -/

namespace Edit

open Schema

variable {s s₀ : Schema} {t : TableId} {c pk : ColumnId} {r : RelationshipId} {depth : Nat}

/-- Whether a rule for promotion works off promotions of the given depth, in every sound schema
that has the frame of `s₀`. -/
def Promotes (promote : ColumnId → Edit Unit) (depth : Nat) (s₀ : Schema) : Prop :=
  ∀ s c, s.Sound → SameFrame s₀ s → s.columns.contains c = true →
    (promote c).Ends (fun _ s' => WorksOff Grow.step [.promote depth c] s s') (fun _ _ => False) s

section

variable {promote : ColumnId → Edit Unit} (hpromote : Promotes promote depth s₀)

include hpromote

/-- Mapping a column that is not mapped yet never fails, is a run of tasks and yields the child
column. -/
theorem adoptOrCreate_worksOff (hs : s.Sound) (hf : SameFrame s₀ s)
    (hready : (Grow.map depth r pk).Ready s) (hnew : pk ∉ (s.mappingsOf r).map Mapping.pk) :
    (adoptOrCreate promote r pk).Ends
      (fun fk s' => fk = (s.mapColumn r pk).1 ∧ WorksOff Grow.step [.map depth r pk] s s')
      (fun _ _ => False) s := by
  obtain ⟨p, ch, hp, hch, hpk⟩ := hready
  obtain ⟨rel, hrel, hrelch⟩ := Option.bind_eq_some_iff.mp hch
  obtain ⟨key, hkey⟩ := (Roster.contains_iff _ _).mp (contains_of_owner? hpk)
  obtain ⟨tbl, htbl⟩ := (Roster.contains_iff _ _).mp (hs.child_stored r ch hch)
  have hid : s.isIdentifying r = rel.identifying := by simp [isIdentifying, hrel]
  obtain ⟨s₁, hm⟩ := hs.mapColumn hch hpk
  obtain ⟨hs', hg, hfk⟩ := hm.sound hs hp hch hpk hnew
  -- what is left to do once the mapping is there
  have hrest : ∀ fk s₂, s.mapColumn r pk = (fk, s₂) →
      (if rel.identifying = true then do
          promote fk
          syncMappingOrder r
          pure fk
        else do
          syncMappingOrder r
          pure fk).Ends
        (fun fk s' => fk = (s.mapColumn r pk).1 ∧ WorksOff Grow.step [.map depth r pk] s s')
        (fun _ _ => False) s₂ := by
    intro fk s₂ heq
    simp only [heq] at hs' hg hfk ⊢
    have hr : s₂.relationships.contains r = true :=
      contains_of_parent? ((hg.frame.parent? r).trans hp)
    have hstep : (Grow.map depth r pk).step s =
        (if rel.identifying then [.promote depth fk, .sync r] else [.sync r], s₂) := by
      simp [Grow.step, hnew, heq, hid]
    cases hi : rel.identifying with
    | false =>
        simp only [Bool.false_eq_true, if_false, ends_bind, ends_syncMappingOrder_of hr, ends_pure,
          true_and]
        refine .task ?_
        rw [hstep, hi]
        exact .task (.done _)
    | true =>
        have hfk₂ := contains_of_owner? hfk
        simp only [if_true, ends_bind]
        refine (hpromote s₂ fk hs' (hf.trans hg.frame) hfk₂).imp fun _ s₃ h₃ => ?_
        -- promoting takes no relationship out
        have hframe := (hs'.grow (by simpa using hfk₂) h₃).2.frame
        rw [ends_syncMappingOrder_of ((hframe.contains_relationship r).trans hr)]
        refine ⟨rfl, .task ?_⟩
        rw [hstep, hi]
        exact h₃.append (.task (.done _))
  unfold adoptOrCreate
  simp only [ends_bind, ends_relationship_of hrel, hrelch, ends_require_some, ends_column_of hkey,
    ends_discard, ends_table_of htbl, ends_get]
  cases had : s.adoptable? rel ch pk key.name with
  | some fk =>
      simp only [ends_bind, ends_pure, ends_change]
      exact hrest _ _ (by simp [Schema.mapColumn, hrel, hkey, hrelch, had])
  | none =>
      unfold placeColumn
      simp only [ends_bind, ends_pure, ends_change, ends_ask, ends_discard, ends_table_of htbl]
      exact hrest _ _ (by simp [Schema.mapColumn, hrel, hkey, hrelch, had])

theorem mapIfMissing_worksOff (hs : s.Sound) (hf : SameFrame s₀ s)
    (hready : (Grow.map depth r pk).Ready s) :
    (mapIfMissing promote r pk).Ends (fun _ s' => WorksOff Grow.step [.map depth r pk] s s')
      (fun _ _ => False) s := by
  obtain ⟨p, ch, hp, hch, hpk⟩ := hready
  obtain ⟨rel, hrel, -⟩ := Option.bind_eq_some_iff.mp hch
  have hm : s.mappingsOf r = rel.mappings := by simp [mappingsOf, hrel]
  unfold mapIfMissing
  simp only [ends_bind, ends_relationship_of hrel]
  cases hof : rel.mappingOf? pk with
  | none =>
      have hnew : pk ∉ (s.mappingsOf r).map Mapping.pk := by
        simpa [Relationship.mappingOf?, hm] using hof
      simp only [Option.isNone_none, if_true, ends_discard]
      exact (adoptOrCreate_worksOff hpromote hs hf ⟨p, ch, hp, hch, hpk⟩ hnew).imp fun _ _ h => h.2
  | some m =>
      have hin : pk ∈ (s.mappingsOf r).map Mapping.pk := by
        have h₁ := List.find?_some hof
        rw [hm]
        exact List.mem_map.mpr ⟨m, List.mem_of_find?_eq_some hof, by simpa using h₁⟩
      refine .task ?_
      simp only [Grow.step, hin, if_true]
      exact .done s

/-- Mapping a column in several relationships works off one task for each. -/
theorem forM_mapIfMissing_worksOff {β : Type} {bs : List β} (rel : β → RelationshipId)
    (key : β → ColumnId) (hs : s.Sound) (hf : SameFrame s₀ s)
    (hready : ∀ b ∈ bs, (Grow.map depth (rel b) (key b)).Ready s) :
    (bs.forM fun b => mapIfMissing promote (rel b) (key b)).Ends
      (fun _ s' => WorksOff Grow.step (bs.map fun b => .map depth (rel b) (key b)) s s')
      (fun _ _ => False) s := by
  refine (Ends.forM_worksOff Grow.step (fun b => Grow.map depth (rel b) (key b))
    (P := fun s₁ => s₁.Sound ∧ Grows s s₁) (fun b hb s₁ h₁ => ?_) ⟨hs, .refl s⟩).imp
    fun _ _ h => h.1
  obtain ⟨hs₁, hg₁⟩ := h₁
  have hready₁ := hg₁.ready (hready b hb)
  refine (mapIfMissing_worksOff hpromote hs₁ (hf.trans hg₁.frame) hready₁).imp
    fun _ s₂ h₂ => ⟨h₂, ?_⟩
  obtain ⟨hs₂, hg₂⟩ := hs₁.grow (by simpa using hready₁) h₂
  exact ⟨hs₂, hg₁.trans hg₂⟩

/-- What follows once a column has joined its key. -/
theorem afterRankChange_join_worksOff (hs : s.Sound) (hf : SameFrame s₀ s)
    (hc : s.columns.contains c = true) (k : Nat) :
    (afterRankChange promote c none (some k)).Ends
      (fun _ s' => WorksOff Grow.step [.join depth c] s s') (fun _ _ => False) s := by
  obtain ⟨t, ht⟩ := hs.owned c hc
  obtain ⟨tbl, htbl⟩ := hs.table_of_owner ht
  have hcasc : s.cascades t = tbl.cascades := by simp [cascades, htbl]
  unfold afterRankChange
  simp only [ends_bind, ends_ownerOf_of ht, ends_table_of htbl]
  cases hx : tbl.cascades with
  | false =>
      refine .task ?_
      simp only [Grow.step, ht, hcasc, hx, Bool.false_eq_true, if_false]
      exact .done s
  | true =>
      have hre := reranks_normalizeKey t (some c) s
      have hg := hs.grows_normalizeKey t (some c)
      simp only [if_true, ends_bind, ends_normalizeKey_of hs (Roster.contains_of_get? htbl), ends_ask,
        Option.map_some, hg.frame.liveExportsOf t]
      -- numbering keeps the relationships that are asked to map the column
      have hjoin : (Grow.join depth c).Ready s := hc
      have hready := (hs.grow_step hjoin).2.2
      simp only [Grow.step, ht, hcasc, hx, if_true] at hready
      refine (forM_mapIfMissing_worksOff hpromote id (fun _ => c) (hre.sound hs)
        (hf.trans hg.frame) fun r hr => hready _ (List.mem_map.mpr ⟨r, hr, rfl⟩)).imp
        fun _ s' h => .task ?_
      simpa [Grow.step, ht, hcasc, hx] using h

end

/-- Promoting a stored column never fails and is a run of tasks. -/
theorem promoteWithin_worksOff (depth : Nat) (s₀ : Schema) :
    Promotes (promoteWithin depth) depth s₀ := by
  -- at depth zero the edit and the task both leave the column as it is
  induction depth with
  | zero => exact fun s c _ _ _ => .task (.done s)
  | succ depth ih =>
      intro s c hs hf hc
      obtain ⟨col, hcol⟩ := (Roster.contains_iff _ _).mp hc
      obtain ⟨t, ht⟩ := hs.owned c hc
      obtain ⟨tbl, htbl⟩ := hs.table_of_owner ht
      have hrank : s.rank? c = col.rank := rank?_of_get? hcol
      unfold promoteWithin
      simp only [ends_bind, ends_column_of hcol]
      cases hk : col.rank with
      | some k =>
          have hkey : col.isKey = true := by simp [Column.isKey, hk]
          simp only [hkey, Bool.not_true, Bool.false_eq_true, if_false, ends_pure]
          refine .task ?_
          simp only [Grow.step, ht, hrank, hk]
          exact .done s
      | none =>
          have hkey : col.isKey = false := by simp [Column.isKey, hk]
          unfold setRank
          simp only [hkey, Bool.not_false, if_true, ends_bind, ends_ownerOf_of ht, ends_discard,
            ends_table_of htbl, ends_ask, ends_column_of hcol, hk, ne_eq, reduceCtorEq,
            not_false_eq_true, ends_change]
          have hre := reranks_changeRank c none (some (s.nextRank t)) s
          refine (afterRankChange_join_worksOff ih (hre.sound hs) (hf.trans hre.sameFrame)
            ((hre.sameShape.contains_column c).trans hc) _).imp fun _ s' h => .task ?_
          simp only [Grow.step, ht, hrank, hk]
          exact h

/-- The rule for promotion that edits use. -/
theorem promotes_promote (s₀ : Schema) : Promotes promote s₀.tables.size s₀ := by
  intro s c hs hf hc
  unfold promote
  simp only [ends_bind, ends_get, hf.size_tables]
  exact promoteWithin_worksOff _ s₀ s c hs hf hc

end Edit

end KeyedSchema
