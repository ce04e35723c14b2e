import KeyedSchema.Proofs.Integrity
import Mathlib.Data.List.Perm.Basic

/-!
# KeyOrder — numbering a key and ordering mappings

Numbering the key of a table changes ranks and the order of mappings and nothing else, which
`Reranks` says. What it achieves is said by two predicates:

- `Numbered t` : the ranks of the key of `t` are `0`, `1`, … without repetition;
- `InOrder r`  : the mappings of `r` ascend in the ranks of their parent columns.

`Schema.normalizeKey t` numbers the key of `t` and puts every relationship that `t` exports in order;
it is what the edit of that name comes to when none of its look-ups misses.
-/

namespace KeyedSchema

/-- A column without its rank. -/
def Column.unranked (col : Column) : Column := { col with rank := none }

namespace Schema

variable {s s' s'' : Schema} {t t' : TableId} {c c' : ColumnId} {r r' : RelationshipId}

/-! ## Changes of ranks and of the order of mappings -/

/-- Whether two schemas differ at most in ranks and in the order of mappings. -/
structure Reranks (s s' : Schema) : Prop where
  config : s'.config = s.config
  tables : s'.tables = s.tables
  columns : s'.columns.map Column.unranked = s.columns.map Column.unranked
  relationships : s'.relationships.map Relationship.frame = s.relationships.map Relationship.frame
  mappingsOf : ∀ r, (s'.mappingsOf r).Perm (s.mappingsOf r)
  lastTable : s'.lastTable = s.lastTable
  lastColumn : s'.lastColumn = s.lastColumn
  lastRelationship : s'.lastRelationship = s.lastRelationship

namespace Reranks

@[refl] theorem refl (s : Schema) : Reranks s s :=
  ⟨rfl, rfl, rfl, rfl, fun _ => .refl _, rfl, rfl, rfl⟩

theorem trans (h : Reranks s s') (h' : Reranks s' s'') : Reranks s s'' :=
  ⟨h'.config.trans h.config, h'.tables.trans h.tables, h'.columns.trans h.columns,
    h'.relationships.trans h.relationships, fun r => (h'.mappingsOf r).trans (h.mappingsOf r),
    h'.lastTable.trans h.lastTable, h'.lastColumn.trans h.lastColumn,
    h'.lastRelationship.trans h.lastRelationship⟩

theorem sameFrame (h : Reranks s s') : SameFrame s s' :=
  ⟨h.config, by rw [h.tables], h.relationships, h.lastTable, h.lastRelationship⟩

theorem column (h : Reranks s s') {col : Column} (hc : s.columns.get? c = some col) :
    ∃ rank, s'.columns.get? c = some { col with rank } := by
  have h₁ := congrArg (fun m => Roster.get? m c) h.columns
  simp only [Roster.get?_map, hc, Option.map_some, Option.map_eq_some_iff] at h₁
  obtain ⟨col', hc', h₂⟩ := h₁
  refine ⟨col'.rank, hc'.trans ?_⟩
  cases col
  cases col'
  simpa [Column.unranked] using h₂

theorem columnsOf (h : Reranks s s') (t : TableId) : s'.columnsOf t = s.columnsOf t := by
  unfold Schema.columnsOf
  rw [h.tables]

theorem owner? (h : Reranks s s') (c : ColumnId) : s'.owner? c = s.owner? c := by
  have h₁ := congrArg (fun m => (Roster.get? m c).bind Column.table) h.columns
  simpa [Option.bind_map, Function.comp_def, Column.unranked, Schema.owner?] using h₁

theorem sameShape (h : Reranks s s') : SameShape s s' where
  config := h.config
  tableKeys := by rw [h.tables]
  columnKeys := by rw [← Roster.keys_map Column.unranked, h.columns, Roster.keys_map]
  relationshipKeys := h.sameFrame.keys_relationships
  columnsOf t := .of_eq (h.columnsOf t)
  exportsOf := h.sameFrame.exportsOf
  importsOf := h.sameFrame.importsOf
  owner? := h.owner?
  parent? := h.sameFrame.parent?
  child? := h.sameFrame.child?
  mappingsOf := h.mappingsOf
  lastTable := h.lastTable
  lastColumn := h.lastColumn
  lastRelationship := h.lastRelationship

theorem sound (h : Reranks s s') (hs : s.Sound) : s'.Sound := hs.of_sameShape h.sameShape

end Reranks

theorem SameObjects.reranks (h : SameObjects s s') : Reranks s s' := by
  obtain ⟨held, raised, published, origins, rfl⟩ := h.exists_eq
  exact ⟨rfl, rfl, rfl, rfl, fun _ => .refl _, rfl, rfl, rfl⟩

theorem SameObjects.rank? (h : SameObjects s s') (c : ColumnId) : s'.rank? c = s.rank? c :=
  rank?_of_columns h.columns c

/-! ## One rank -/

theorem reranks_changeRank (c : ColumnId) (old new : Option Nat) (s : Schema) :
    Reranks s (s.changeRank c old new) := by
  refine Reranks.trans ?_ (SameObjects.raise _ _).reranks
  refine ⟨rfl, rfl, ?_, rfl, fun _ => .refl _, rfl, rfl, rfl⟩
  exact Roster.map_modify _ _ _ _ fun _ => rfl

theorem rank?_changeRank (c : ColumnId) (old new : Option Nat) (s : Schema)
    (hc : s.columns.contains c = true) (c' : ColumnId) :
    (s.changeRank c old new).rank? c' = if c' = c then new else s.rank? c' := by
  obtain ⟨col, hcol⟩ := (Roster.contains_iff _ _).mp hc
  unfold changeRank
  rw [(SameObjects.raise _ _).rank?]
  by_cases h : c' = c
  · subst h
    simp [Schema.rank?, changeColumn, hcol]
  · simp [Schema.rank?, changeColumn, h]

theorem mappingsOf_changeRank (c : ColumnId) (old new : Option Nat) (s : Schema)
    (r : RelationshipId) : (s.changeRank c old new).mappingsOf r = s.mappingsOf r := by
  unfold Schema.mappingsOf changeRank
  rw [(SameObjects.raise _ _).relationships]
  rfl

/-! ## The order of the mappings of one relationship -/

/-- Whether the mappings of a relationship ascend in the ranks of their parent columns. -/
def InOrder (s : Schema) (r : RelationshipId) : Prop :=
  (s.mappingsOf r).Pairwise fun m m' => s.mappingRank m ≤ s.mappingRank m'

/-- Mappings stay in order when some leave and the parent columns of the others keep their ranks. -/
theorem InOrder.sublist (h : s.InOrder r) (hsub : (s'.mappingsOf r').Sublist (s.mappingsOf r))
    (hrank : ∀ m ∈ s'.mappingsOf r', s'.rank? m.pk = s.rank? m.pk) : s'.InOrder r' := by
  refine (List.Pairwise.sublist hsub h).imp_of_mem fun {m m'} hm hm' hle => ?_
  unfold mappingRank at hle ⊢
  rwa [hrank m hm, hrank m' hm']

theorem InOrder.congr (h : s.InOrder r) (hm : s'.mappingsOf r' = s.mappingsOf r)
    (hrank : ∀ m ∈ s'.mappingsOf r', s'.rank? m.pk = s.rank? m.pk) : s'.InOrder r' :=
  h.sublist (hm ▸ .refl _) hrank

/-- Ordering the mappings of a relationship either finds them in order or replaces them. -/
theorem syncMappingOrder_cases (r : RelationshipId) (s : Schema) :
    (s.syncMappingOrder r = s ∧ s.inKeyOrder (s.mappingsOf r) = s.mappingsOf r) ∨
      (s.relationships.contains r = true ∧
        SameObjects (s.changeRelationship r fun rel =>
          { rel with mappings := s.inKeyOrder (s.mappingsOf r) }) (s.syncMappingOrder r)) := by
  unfold syncMappingOrder Schema.mappingsOf
  cases hr : s.relationships.get? r with
  | none => exact .inl ⟨rfl, rfl⟩
  | some rel =>
      by_cases h : s.inKeyOrder rel.mappings = rel.mappings
      · exact .inl ⟨if_pos h, h⟩
      · refine .inr ⟨Roster.contains_of_get? hr, ?_⟩
        simp only [Option.elim_some, if_neg h]
        exact SameObjects.raise _ _

theorem syncMappingOrder_columns (r : RelationshipId) (s : Schema) :
    (s.syncMappingOrder r).columns = s.columns := by
  rcases syncMappingOrder_cases r s with ⟨h, -⟩ | ⟨-, h⟩
  · rw [h]
  · exact h.columns

theorem mappingsOf_syncMappingOrder (r r' : RelationshipId) (s : Schema) :
    (s.syncMappingOrder r).mappingsOf r' =
      if r' = r then s.inKeyOrder (s.mappingsOf r) else s.mappingsOf r' := by
  rcases syncMappingOrder_cases r s with ⟨h, heq⟩ | ⟨hr, h⟩
  · rw [h]
    split
    · rename_i hr
      rw [hr, heq]
    · rfl
  · obtain ⟨rel, hrel⟩ := (Roster.contains_iff _ _).mp hr
    have hm : s.mappingsOf r = rel.mappings := by simp [Schema.mappingsOf, hrel]
    unfold Schema.mappingsOf at hm ⊢
    rw [h.relationships]
    by_cases h : r' = r
    · simp [changeRelationship, h, hrel, Schema.mappingsOf]
    · simp [changeRelationship, h]

theorem reranks_syncMappingOrder (r : RelationshipId) (s : Schema) :
    Reranks s (s.syncMappingOrder r) := by
  rcases syncMappingOrder_cases r s with ⟨h, -⟩ | ⟨-, h⟩
  · rw [h]
  · refine ⟨h.config, h.tables, by rw [h.columns]; rfl, ?_, ?_, h.lastTable, h.lastColumn,
      h.lastRelationship⟩
    · rw [h.relationships]
      exact Roster.map_modify _ _ _ _ fun _ => rfl
    · intro r'
      rw [mappingsOf_syncMappingOrder]
      split
      · rename_i heq
        rw [heq]
        exact sortOn_perm _ _
      · exact .refl _

theorem rank?_syncMappingOrder (r : RelationshipId) (s : Schema) (c : ColumnId) :
    (s.syncMappingOrder r).rank? c = s.rank? c :=
  rank?_of_columns (syncMappingOrder_columns r s) c

theorem isKey_syncMappingOrder (r : RelationshipId) (s : Schema) (c : ColumnId) :
    (s.syncMappingOrder r).isKey c = s.isKey c := isKey_congr (rank?_syncMappingOrder r s c)

theorem mappingRank_congr (h : ∀ c, s'.rank? c = s.rank? c) : s'.mappingRank = s.mappingRank := by
  funext m
  simp [mappingRank, h]

/-- A mapping that does not belong at the very end is one of a key column. -/
theorem isKey_of_mappingRank {m : Mapping} (h : s.mappingRank m ≠ lastRank) :
    s.isKey m.pk = true := by
  cases hrank : s.rank? m.pk with
  | none => exact absurd (by simp [mappingRank, hrank]) h
  | some k => exact isKey_iff.mpr ⟨k, hrank⟩

theorem inOrder_syncMappingOrder (r : RelationshipId) (s : Schema) :
    (s.syncMappingOrder r).InOrder r := by
  unfold InOrder
  rw [mappingsOf_syncMappingOrder, if_pos rfl,
    mappingRank_congr (rank?_syncMappingOrder r s)]
  exact sortOn_sorted _ _

/-- Ordering one relationship puts no other one out of order. -/
theorem InOrder.syncMappingOrder (h : s.InOrder r') (r : RelationshipId) :
    (s.syncMappingOrder r).InOrder r' := by
  unfold InOrder
  rw [mappingRank_congr (rank?_syncMappingOrder r s), mappingsOf_syncMappingOrder]
  split
  · exact sortOn_sorted _ _
  · exact h

/-! ## Ordering several relationships -/

theorem reranks_syncAll (rs : List RelationshipId) (s : Schema) :
    Reranks s (rs.foldl (fun s r => s.syncMappingOrder r) s) := by
  induction rs generalizing s with
  | nil => rfl
  | cons r rs ih => exact (reranks_syncMappingOrder r s).trans (ih _)

theorem columns_syncAll (rs : List RelationshipId) (s : Schema) :
    (rs.foldl (fun s r => s.syncMappingOrder r) s).columns = s.columns := by
  induction rs generalizing s with
  | nil => rfl
  | cons r rs ih => exact (ih _).trans (syncMappingOrder_columns r s)

theorem rank?_syncAll (rs : List RelationshipId) (s : Schema) (c : ColumnId) :
    (rs.foldl (fun s r => s.syncMappingOrder r) s).rank? c = s.rank? c :=
  rank?_of_columns (columns_syncAll rs s) c

theorem InOrder.syncAll (h : s.InOrder r) (rs : List RelationshipId) :
    (rs.foldl (fun s r => s.syncMappingOrder r) s).InOrder r := by
  induction rs generalizing s with
  | nil => exact h
  | cons r' rs ih => exact ih (h.syncMappingOrder r')

theorem inOrder_syncAll (rs : List RelationshipId) (s : Schema) (hr : r ∈ rs) :
    (rs.foldl (fun s r => s.syncMappingOrder r) s).InOrder r := by
  induction rs generalizing s with
  | nil => simp at hr
  | cons r' rs ih =>
      rcases List.mem_cons.mp hr with rfl | hr
      · exact (inOrder_syncMappingOrder r s).syncAll rs
      · exact ih _ hr

theorem mappingsOf_syncAll_of_notMem (rs : List RelationshipId) (s : Schema) (hr : r ∉ rs) :
    (rs.foldl (fun s r => s.syncMappingOrder r) s).mappingsOf r = s.mappingsOf r := by
  induction rs generalizing s with
  | nil => rfl
  | cons r' rs ih =>
      obtain ⟨hne, hr⟩ := not_or.mp (List.mem_cons.not.mp hr)
      rw [List.foldl_cons, ih _ hr, mappingsOf_syncMappingOrder, if_neg hne]

/-! ## Numbering -/

/-- Whether the ranks of a table's key are `0`, `1`, … without repetition. -/
def Numbered (s : Schema) (t : TableId) : Prop :=
  ((s.keyRanks t).map Prod.snd).Perm (List.range (s.keyRanks t).length)

theorem keyRanks_fst (s : Schema) (t : TableId) :
    (s.keyRanks t).map Prod.fst = (s.columnsOf t).filter s.isKey := by
  unfold keyRanks
  induction s.columnsOf t with
  | nil => rfl
  | cons c cs ih =>
      cases h : s.rank? c with
      | none => simpa [h, isKey] using ih
      | some k => simpa [h, isKey] using ih

theorem keyRanks_snd (s : Schema) (t : TableId) :
    (s.keyRanks t).map Prod.snd = ((s.columnsOf t).filter s.isKey).filterMap s.rank? := by
  unfold keyRanks
  induction s.columnsOf t with
  | nil => rfl
  | cons c cs ih =>
      cases h : s.rank? c with
      | none => simpa [h, isKey] using ih
      | some k => simpa [h, isKey] using ih

/-- A key stays numbered when its table keeps its columns, up to order, and their ranks. -/
theorem Numbered.congr (h : s.Numbered t) (hcols : (s'.columnsOf t').Perm (s.columnsOf t))
    (hrank : ∀ c ∈ s.columnsOf t, s'.rank? c = s.rank? c) : s'.Numbered t' := by
  have hperm : (s'.keyRanks t').Perm (s.keyRanks t) := by
    unfold keyRanks
    refine (hcols.filterMap _).trans (.of_eq (List.filterMap_congr fun c hc => ?_))
    rw [hrank c hc]
  unfold Numbered at h ⊢
  rw [hperm.length_eq]
  exact (hperm.map Prod.snd).trans h

/-- A table without columns has a numbered key. -/
theorem numbered_of_columnsOf (h : s.columnsOf t = []) : s.Numbered t := by
  simp [Numbered, keyRanks, h]

theorem mem_keyRanks {k : Nat} :
    (c, k) ∈ s.keyRanks t ↔ c ∈ s.columnsOf t ∧ s.rank? c = some k := by
  simp only [keyRanks, List.mem_filterMap, Option.map_eq_some_iff, Prod.mk.injEq]
  constructor
  · rintro ⟨c', hc', k', hk', rfl, rfl⟩
    exact ⟨hc', hk'⟩
  · rintro ⟨hc, hk⟩
    exact ⟨c, hc, k, hk, rfl, rfl⟩

theorem Sound.keyRanks_nodup (hs : s.Sound) (t : TableId) :
    ((s.keyRanks t).map Prod.fst).Nodup := by
  rw [keyRanks_fst]
  exact (hs.columnsOf_nodup t).filter _

theorem mem_primaryKey : c ∈ s.primaryKey t ↔ c ∈ s.columnsOf t ∧ s.isKey c = true := by
  simp only [primaryKey, List.mem_map, mem_sortOn, Prod.exists, exists_and_right, exists_eq_right,
    mem_keyRanks, isKey_iff]
  exact exists_and_left

/-- A table that keeps its columns and their ranks keeps its key. -/
theorem primaryKey_congr (hcols : s'.columnsOf t' = s.columnsOf t)
    (hrank : ∀ c ∈ s.columnsOf t, s'.rank? c = s.rank? c) : s'.primaryKey t' = s.primaryKey t := by
  have hranks : s'.keyRanks t' = s.keyRanks t := by
    unfold keyRanks
    rw [hcols]
    exact List.filterMap_congr fun c hc => by rw [hrank c hc]
  rw [primaryKey, primaryKey, hranks]

theorem Sound.primaryKey_nodup (hs : s.Sound) (t : TableId) : (s.primaryKey t).Nodup :=
  (((sortOn_perm Prod.snd (s.keyRanks t)).map Prod.fst).nodup_iff).mpr (hs.keyRanks_nodup t)

theorem reranks_renumber (n : Nat) (es : List (ColumnId × Nat)) (s : Schema) :
    Reranks s (renumber n es s) := by
  induction es generalizing n s with
  | nil => rfl
  | cons e es ih =>
      obtain ⟨c, k⟩ := e
      unfold renumber
      split
      · exact ih _ _
      · exact (reranks_changeRank _ _ _ s).trans (ih _ _)

theorem mappingsOf_renumber (n : Nat) (es : List (ColumnId × Nat)) (s : Schema)
    (r : RelationshipId) : (renumber n es s).mappingsOf r = s.mappingsOf r := by
  induction es generalizing n s with
  | nil => rfl
  | cons e es ih =>
      obtain ⟨c, k⟩ := e
      unfold renumber
      rw [ih]
      split
      · rfl
      · exact mappingsOf_changeRank c _ _ s r

theorem rank?_renumber_of_notMem (n : Nat) (es : List (ColumnId × Nat)) (s : Schema)
    (hes : ∀ e ∈ es, s.columns.contains e.1 = true) (hc : c ∉ es.map Prod.fst) :
    (renumber n es s).rank? c = s.rank? c := by
  induction es generalizing n s with
  | nil => rfl
  | cons e es ih =>
      obtain ⟨c', k⟩ := e
      simp only [List.map_cons, List.mem_cons, not_or] at hc
      have hc' : s.columns.contains c' = true := hes _ (List.mem_cons_self ..)
      unfold renumber
      split
      · exact ih _ _ (fun e he => hes e (List.mem_cons_of_mem _ he)) hc.2
      · have hr := reranks_changeRank c' (some k) (some n) s
        rw [ih _ _ (fun e he => by
          rw [hr.sameShape.contains_column]
          exact hes e (List.mem_cons_of_mem _ he)) hc.2,
          rank?_changeRank c' _ _ s hc', if_neg hc.1]

/-- Numbering gives the `i`-th column of the list the rank `n + i`. -/
theorem rank?_renumber (n : Nat) (es : List (ColumnId × Nat)) (s : Schema)
    (hnd : (es.map Prod.fst).Nodup) (hes : ∀ e ∈ es, s.rank? e.1 = some e.2) (i : Nat)
    (e : ColumnId × Nat) (he : es[i]? = some e) :
    (renumber n es s).rank? e.1 = some (n + i) := by
  -- a rank that is right already is left alone, which the induction has to allow
  induction es generalizing n s i with
  | nil => simp at he
  | cons e' es ih =>
      obtain ⟨c', k⟩ := e'
      obtain ⟨hc', hnd⟩ := List.nodup_cons.mp hnd
      have hk : s.rank? c' = some k := hes _ (List.mem_cons_self ..)
      have hstored : ∀ e ∈ es, s.columns.contains e.1 = true := fun e he =>
        contains_of_isKey (isKey_iff.mpr ⟨_, hes e (List.mem_cons_of_mem _ he)⟩)
      have hc's : s.columns.contains c' = true := contains_of_isKey (isKey_iff.mpr ⟨k, hk⟩)
      -- the schema in which the rest of the list is numbered
      obtain ⟨s₁, hs₁, hrest, hhead⟩ : ∃ s₁, renumber n ((c', k) :: es) s = renumber (n + 1) es s₁ ∧
          (∀ e ∈ es, s₁.rank? e.1 = some e.2 ∧ s₁.columns.contains e.1 = true) ∧
          s₁.rank? c' = some n := by
        by_cases h : k = n
        · refine ⟨s, by simp [renumber, h], fun e he => ?_, by rw [hk, h]⟩
          exact ⟨hes e (List.mem_cons_of_mem _ he), hstored e he⟩
        · refine ⟨s.changeRank c' (some k) (some n), by simp [renumber, h], fun e he => ?_, ?_⟩
          · have hne : e.1 ≠ c' := fun heq => hc' (List.mem_map.mpr ⟨e, he, heq⟩)
            rw [rank?_changeRank c' _ _ s hc's, if_neg hne,
              (reranks_changeRank c' (some k) (some n) s).sameShape.contains_column]
            exact ⟨hes e (List.mem_cons_of_mem _ he), hstored e he⟩
          · rw [rank?_changeRank c' _ _ s hc's, if_pos rfl]
      rw [hs₁]
      cases i with
      | zero =>
          simp only [List.getElem?_cons_zero, Option.some.injEq] at he
          subst he
          rw [rank?_renumber_of_notMem _ _ _ (fun e he => (hrest e he).2) hc', hhead]
          rfl
      | succ i =>
          rw [List.getElem?_cons_succ] at he
          rw [ih (n + 1) s₁ hnd (fun e he => (hrest e he).1) i he]
          congr 1
          omega

theorem keyOrder_perm (s : Schema) (t : TableId) (placed : Option ColumnId) :
    (s.keyOrder t placed).Perm (s.keyRanks t) := sortOn_perm _ _

/-- With no column placed, a key is numbered along the order that it has. -/
theorem keyOrder_none (s : Schema) (t : TableId) :
    s.keyOrder t none = sortOn Prod.snd (s.keyRanks t) :=
  sortOn_congr fun e _ e' _ => by simp only [reduceCtorEq, if_false]; omega

theorem mem_keyOrder {placed : Option ColumnId} {e : ColumnId × Nat} :
    e ∈ s.keyOrder t placed ↔ e.1 ∈ s.columnsOf t ∧ s.rank? e.1 = some e.2 := by
  rw [(keyOrder_perm s t placed).mem_iff]
  exact mem_keyRanks

/-- The schema with the key of a table numbered from zero and the mappings of the relationships it
exports in key order. -/
def normalizeKey (t : TableId) (placed : Option ColumnId) (s : Schema) : Schema :=
  let s := renumber 0 (s.keyOrder t placed) s
  (s.exportsOf t).foldl (fun s r => s.syncMappingOrder r) s

theorem reranks_normalizeKey (t : TableId) (placed : Option ColumnId) (s : Schema) :
    Reranks s (s.normalizeKey t placed) :=
  (reranks_renumber 0 _ s).trans (reranks_syncAll _ _)

theorem mappingsOf_normalizeKey_of_notMem (placed : Option ColumnId) (h : r ∉ s.exportsOf t) :
    (s.normalizeKey t placed).mappingsOf r = s.mappingsOf r := by
  have hexp := (reranks_renumber 0 (s.keyOrder t placed) s).sameFrame.exportsOf t
  exact (mappingsOf_syncAll_of_notMem _ _ (hexp ▸ h)).trans (mappingsOf_renumber _ _ s r)

theorem rank?_normalizeKey (t : TableId) (placed : Option ColumnId) (s : Schema) (c : ColumnId) :
    (s.normalizeKey t placed).rank? c = (renumber 0 (s.keyOrder t placed) s).rank? c :=
  rank?_syncAll _ _ c

/-- The numbered key of a table, with its new ranks. -/
theorem Sound.rank?_normalizeKey_of_getElem? (hs : s.Sound) {placed : Option ColumnId} {i : Nat}
    {e : ColumnId × Nat} (he : (s.keyOrder t placed)[i]? = some e) :
    (s.normalizeKey t placed).rank? e.1 = some i := by
  rw [rank?_normalizeKey, rank?_renumber 0 _ s _ (fun e he => (mem_keyOrder.mp he).2) i e he,
    Nat.zero_add]
  exact (((keyOrder_perm s t placed).map Prod.fst).nodup_iff).mpr (hs.keyRanks_nodup t)

/-- Numbering a key leaves the ranks of all other columns alone. -/
theorem rank?_normalizeKey_of_not (placed : Option ColumnId)
    (h : ¬ (c ∈ s.columnsOf t ∧ s.isKey c = true)) :
    (s.normalizeKey t placed).rank? c = s.rank? c := by
  rw [rank?_normalizeKey]
  refine rank?_renumber_of_notMem 0 _ s (fun e he => ?_) fun hc => h ?_
  · exact contains_of_isKey (isKey_iff.mpr ⟨_, (mem_keyOrder.mp he).2⟩)
  · obtain ⟨e, he, rfl⟩ := List.mem_map.mp hc
    obtain ⟨hl, hk⟩ := mem_keyOrder.mp he
    exact ⟨hl, isKey_iff.mpr ⟨_, hk⟩⟩

theorem Sound.isKey_normalizeKey (hs : s.Sound) (t : TableId) (placed : Option ColumnId)
    (c : ColumnId) : (s.normalizeKey t placed).isKey c = s.isKey c := by
  by_cases h : c ∈ s.columnsOf t ∧ s.isKey c = true
  · obtain ⟨hl, hk⟩ := h
    obtain ⟨k, hrank⟩ := isKey_iff.mp hk
    have hmem : (c, k) ∈ s.keyOrder t placed := mem_keyOrder.mpr ⟨hl, hrank⟩
    obtain ⟨i, hi⟩ := List.mem_iff_getElem?.mp hmem
    rw [hk, isKey_iff]
    exact ⟨i, hs.rank?_normalizeKey_of_getElem? hi⟩
  · exact isKey_congr (rank?_normalizeKey_of_not placed h)

/-- A function that numbers a list reads the numbers off in order. -/
theorem filterMap_eq_range' {α : Type} (f : α → Option Nat) (xs : List α) (n : Nat)
    (h : ∀ i x, xs[i]? = some x → f x = some (n + i)) :
    xs.filterMap f = List.range' n xs.length := by
  induction xs generalizing n with
  | nil => rfl
  | cons x xs ih =>
      have hx : f x = some n := h 0 x rfl
      rw [List.filterMap_cons, hx, List.length_cons, List.range'_succ, ih (n + 1)]
      intro i y hy
      rw [h (i + 1) y hy]
      congr 1
      omega

theorem Sound.numbered_normalizeKey (hs : s.Sound) (t : TableId) (placed : Option ColumnId) :
    (s.normalizeKey t placed).Numbered t := by
  have hcols : ((s.normalizeKey t placed).columnsOf t).filter (s.normalizeKey t placed).isKey =
      (s.keyRanks t).map Prod.fst := by
    rw [(reranks_normalizeKey t placed s).columnsOf, keyRanks_fst,
      funext (hs.isKey_normalizeKey t placed)]
  have hlen : ((s.normalizeKey t placed).keyRanks t).length = (s.keyOrder t placed).length := by
    have hfst := congrArg List.length ((keyRanks_fst _ t).trans hcols)
    rw [List.length_map, List.length_map] at hfst
    rw [hfst, (keyOrder_perm s t placed).length_eq]
  have hranks : ((s.keyOrder t placed).map Prod.fst).filterMap (s.normalizeKey t placed).rank? =
      List.range (s.keyOrder t placed).length := by
    rw [List.filterMap_map, List.range_eq_range']
    refine filterMap_eq_range' _ _ 0 fun i e he => ?_
    rw [Nat.zero_add]
    exact hs.rank?_normalizeKey_of_getElem? he
  unfold Numbered
  rw [hlen, keyRanks_snd, hcols, ← hranks]
  exact ((keyOrder_perm s t placed).symm.map Prod.fst).filterMap _

theorem inOrder_normalizeKey (placed : Option ColumnId) (h : r ∈ s.exportsOf t) :
    (s.normalizeKey t placed).InOrder r := by
  refine inOrder_syncAll _ _ ?_
  rwa [(reranks_renumber 0 (s.keyOrder t placed) s).sameFrame.exportsOf]

end Schema

end KeyedSchema
