import KeyedSchema.Proofs.Identity
import KeyedSchema.Proofs.Shedding

/-!
# Normalizing — a key is numbered and its relationships put in order

Normalizing the key of a table numbers it from zero without changing its order, whatever gaps and
ties its ranks have, and sorts the mappings of all relationships that the table exports. Sorting is
by rank, and stable; once the key is numbered, it brings the mappings of key columns to the front in
the order of the key and leaves the others as they are (`keyedFirst`).

One event tells of each rank that differs, and one of each relationship whose mappings moved. Where a
key is numbered and its relationships are in order there is nothing to change and nothing to tell.
-/

namespace KeyedSchema

namespace Schema

variable {s s' : Schema} {t : TableId} {c : ColumnId} {r : RelationshipId}

/-! ## What is told -/

/-- The event that tells of a new rank. -/
def reranked (c : ColumnId) (old new : Option Nat) : Event :=
  .propertyChanged (.column c) .primaryKeySeq (.ofInt? old) (.ofInt? new)

/-- Numbering tells of every column that did not have its number. -/
theorem raised_renumber (n : Nat) (es : List (ColumnId × Nat)) (s : Schema) :
    (renumber n es s).raised = s.raised ++ (es.zipIdx n).filterMap fun e =>
      if e.1.2 = e.2 then none else some (reranked e.1.1 (some e.1.2) (some e.2)) := by
  induction es generalizing n s with
  | nil => simp [renumber]
  | cons e es ih =>
      obtain ⟨c, k⟩ := e
      unfold renumber
      rw [ih, List.zipIdx_cons, List.filterMap_cons]
      by_cases hk : k = n
      · simp [hk]
      · have htold : (s.changeRank c (some k) (some n)).raised =
            s.raised ++ [reranked c (some k) (some n)] := raised_raise _ _
        simp [hk, htold]

/-- Along the key, one event tells of each column whose rank differs. -/
theorem Sound.raised_numbering (hs : s.Sound) (t : TableId) :
    (renumber 0 (s.keyOrder t none) s).raised = s.raised ++
      ((s.primaryKey t).filter fun c => (s.normalizeKey t none).rank? c ≠ s.rank? c).map fun c =>
        reranked c (s.rank? c) ((s.normalizeKey t none).rank? c) := by
  have hkey : s.primaryKey t = (s.keyOrder t none).zipIdx.map fun e => e.1.1 := by
    rw [primaryKey, ← keyOrder_none, ← List.zipIdx_map_fst 0 (s.keyOrder t none), List.map_map,
      List.zipIdx_map_fst]
    rfl
  rw [raised_renumber, hkey, List.filter_map, List.map_map, ← List.filterMap_eq_map,
    List.filterMap_filter]
  congr 1
  refine List.filterMap_congr fun e he => ?_
  have hget := List.mem_zipIdx_iff_getElem?.mp he
  have hold := (mem_keyOrder.mp (List.mem_of_getElem? hget)).2
  have hnew := hs.rank?_normalizeKey_of_getElem? hget
  by_cases hk : e.1.2 = e.2
  · simp [hold, hnew, hk]
  · simp [hold, hnew, hk, Ne.symm hk]

theorem inKeyOrder_congr (h : ∀ c, s'.rank? c = s.rank? c) : s'.inKeyOrder = s.inKeyOrder := by
  funext ms
  rw [inKeyOrder, inKeyOrder, mappingRank_congr h]

theorem raised_syncMappingOrder (r : RelationshipId) (s : Schema) :
    (s.syncMappingOrder r).raised = s.raised ++
      if s.inKeyOrder (s.mappingsOf r) = s.mappingsOf r then []
      else [.structureChanged (.relationship r)] := by
  unfold syncMappingOrder mappingsOf
  cases hr : s.relationships.get? r with
  | none => simp [inKeyOrder, sortOn]
  | some rel =>
      by_cases h : s.inKeyOrder rel.mappings = rel.mappings
      · simp [h]
      · simp only [Option.elim_some, h, if_false, raised_raise]
        rfl

/-- Ordering some relationships orders these and no others. -/
theorem mappingsOf_syncAll {rs : List RelationshipId} (hrs : rs.Nodup) (s : Schema) (hr : r ∈ rs) :
    (rs.foldl (fun s r => s.syncMappingOrder r) s).mappingsOf r = s.inKeyOrder (s.mappingsOf r) := by
  induction rs generalizing s with
  | nil => exact absurd hr List.not_mem_nil
  | cons r' rs ih =>
      obtain ⟨hr', hrs⟩ := List.nodup_cons.mp hrs
      rw [List.foldl_cons]
      rcases List.mem_cons.mp hr with rfl | hr
      · rw [mappingsOf_syncAll_of_notMem rs _ hr', mappingsOf_syncMappingOrder, if_pos rfl]
      · have hne : r ≠ r' := fun heq => hr' (heq ▸ hr)
        rw [ih hrs _ hr, inKeyOrder_congr (rank?_syncMappingOrder r' s),
          mappingsOf_syncMappingOrder, if_neg hne]

/-- One event tells of each relationship whose mappings move. -/
theorem raised_syncAll {rs : List RelationshipId} (hrs : rs.Nodup) (s : Schema) :
    (rs.foldl (fun s r => s.syncMappingOrder r) s).raised = s.raised ++
      (rs.filter fun r => s.inKeyOrder (s.mappingsOf r) ≠ s.mappingsOf r).map fun r =>
        .structureChanged (.relationship r) := by
  induction rs generalizing s with
  | nil => simp
  | cons r rs ih =>
      obtain ⟨hr, hrs⟩ := List.nodup_cons.mp hrs
      have hrest : (rs.filter fun r' => (s.syncMappingOrder r).inKeyOrder
            ((s.syncMappingOrder r).mappingsOf r') ≠ (s.syncMappingOrder r).mappingsOf r') =
          rs.filter fun r' => s.inKeyOrder (s.mappingsOf r') ≠ s.mappingsOf r' := by
        refine List.filter_congr fun r' hr' => ?_
        have hne : r' ≠ r := fun heq => hr (heq ▸ hr')
        rw [inKeyOrder_congr (rank?_syncMappingOrder r s), mappingsOf_syncMappingOrder, if_neg hne]
      rw [List.foldl_cons, ih hrs, hrest, raised_syncMappingOrder, List.filter_cons]
      by_cases h : s.inKeyOrder (s.mappingsOf r) = s.mappingsOf r
      · simp [h]
      · simp [h]

/-! ## A normalized key -/

/-- Numbering a key that is numbered changes nothing. -/
theorem renumber_eq_self {n : Nat} {es : List (ColumnId × Nat)}
    (h : ∀ i e, es[i]? = some e → e.2 = n + i) : renumber n es s = s := by
  induction es generalizing n with
  | nil => rfl
  | cons e es ih =>
      obtain ⟨c, k⟩ := e
      have hk : k = n := h 0 (c, k) rfl
      unfold renumber
      rw [if_pos hk]
      refine ih fun i e he => ?_
      have := h (i + 1) e he
      omega

theorem syncMappingOrder_eq_self (h : s.InOrder r) : s.syncMappingOrder r = s := by
  unfold syncMappingOrder
  cases hr : s.relationships.get? r with
  | none => rfl
  | some rel =>
      have hm : s.mappingsOf r = rel.mappings := by simp [mappingsOf, hr]
      exact if_pos (sortOn_of_sorted _ _ (hm ▸ h))

theorem syncAll_eq_self {rs : List RelationshipId} (h : ∀ r ∈ rs, s.InOrder r) :
    rs.foldl (fun s r => s.syncMappingOrder r) s = s := by
  induction rs with
  | nil => rfl
  | cons r rs ih =>
      rw [List.foldl_cons, syncMappingOrder_eq_self (h r (List.mem_cons_self ..))]
      exact ih fun r' hr' => h r' (List.mem_cons_of_mem _ hr')

/-- Of a key that is numbered, normalizing it only puts the relationships in order. -/
theorem normalizeKey_of_ranks
    (hranks : ∀ i c, (s.primaryKey t)[i]? = some c → s.rank? c = some i) :
    s.normalizeKey t none = (s.exportsOf t).foldl (fun s r => s.syncMappingOrder r) s := by
  have hnumbers : renumber 0 (s.keyOrder t none) s = s := by
    refine renumber_eq_self fun i e he => ?_
    have hkey : (s.primaryKey t)[i]? = some e.1 := by
      rw [primaryKey, ← keyOrder_none, List.getElem?_map, he, Option.map_some]
    have hrank := (mem_keyOrder.mp (List.mem_of_getElem? he)).2
    rw [hranks i e.1 hkey] at hrank
    simpa using (Option.some.inj hrank).symm
  unfold normalizeKey
  rw [hnumbers]

/-- A key that is numbered, of a table whose relationships are in order, stays as it is. -/
theorem normalizeKey_eq_self (hranks : ∀ i c, (s.primaryKey t)[i]? = some c → s.rank? c = some i)
    (hord : ∀ r ∈ s.exportsOf t, s.InOrder r) : s.normalizeKey t none = s :=
  (normalizeKey_of_ranks hranks).trans (syncAll_eq_self hord)

/-- Normalizing a key that is numbered leaves a relationship in order as it is. -/
theorem mappingsOf_normalizeKey_of_inOrder (hs : s.Sound)
    (hranks : ∀ i c, (s.primaryKey t)[i]? = some c → s.rank? c = some i) (hord : s.InOrder r) :
    (s.normalizeKey t none).mappingsOf r = s.mappingsOf r := by
  by_cases hr : r ∈ s.exportsOf t
  · rw [normalizeKey_of_ranks hranks, mappingsOf_syncAll (hs.exportsOf_nodup t) s hr]
    exact sortOn_of_sorted _ _ hord
  · exact mappingsOf_normalizeKey_of_notMem none hr

/-! ## The order of the mappings -/

/-- The mappings of a relationship with those of key columns in front, in the order of the key. -/
def keyedFirst (s : Schema) (t : TableId) (r : RelationshipId) : List Mapping :=
  (s.primaryKey t).filterMap (fun c => (s.mappingsOf r).find? fun m => m.pk = c) ++
    (s.mappingsOf r).filter fun m => !s.isKey m.pk

/-- A list in which nothing that is wanted comes after something that is not. -/
theorem filter_append_filter_not {α : Type} {p : α → Bool} {xs : List α}
    (h : xs.Pairwise fun a b => p b = true → p a = true) :
    xs.filter p ++ xs.filter (fun a => !p a) = xs := by
  induction xs with
  | nil => rfl
  | cons x xs ih =>
      obtain ⟨hx, hxs⟩ := List.pairwise_cons.mp h
      cases hp : p x with
      | true => simp [hp, ih hxs]
      | false =>
          have hnone : ∀ a ∈ xs, p a = false := fun a ha => by
            by_contra hpa
            rw [hx a ha (by simpa using hpa)] at hp
            exact Bool.noConfusion hp
          have hfirst : xs.filter p = [] := List.filter_eq_nil_iff.mpr fun a ha => by simp [hnone a ha]
          have hsecond : xs.filter (fun a => !p a) = xs :=
            List.filter_eq_self.mpr fun a ha => by simp [hnone a ha]
          simp [hp, hfirst, hsecond]

/-- Whether ranks tell the mappings of key columns from the others: there are no others, or the key
has no more columns than there are ranks in front of the last one. Ranks are 32-bit numbers and
`lastRank` is the largest of them, so this fails of keys only that are too long for their ranks. -/
def RanksApart (s : Schema) (t : TableId) (r : RelationshipId) : Prop :=
  (∀ m ∈ s.mappingsOf r, s.isKey m.pk = true) ∨ (s.primaryKey t).length ≤ lastRank

section

variable (hs : s.Sound) (hr : r ∈ s.exportsOf t)

include hs

theorem Sound.numbered_along (t : TableId) :
    (s.primaryKey t).map (s.normalizeKey t none).rank? =
      (List.range (s.primaryKey t).length).map some := by
  have hranks := (hs.numbered_normalizeKey t none).ranks
  rwa [hs.primaryKey_normalizeKey] at hranks

include hr

theorem Sound.pk_mem_primaryKey {m : Mapping} (hm : m ∈ s.mappingsOf r) :
    m.pk ∈ s.primaryKey t ↔ s.isKey m.pk = true := by
  rw [mem_primaryKey, hs.listed]
  exact and_iff_right (hs.pk_owner hm (hs.exported t r hr))

/-- The mappings of key columns end up in the order of the key. -/
theorem Sound.filter_key_normalizeKey :
    ((s.normalizeKey t none).mappingsOf r).filter (fun m => s.isKey m.pk) =
      (s.primaryKey t).filterMap fun c => (s.mappingsOf r).find? fun m => m.pk = c := by
  have hre := reranks_normalizeKey t none s
  have hs' := hre.sound hs
  have hmem : ∀ {m}, m ∈ (s.normalizeKey t none).mappingsOf r ↔ m ∈ s.mappingsOf r :=
    fun {m} => (hre.mappingsOf r).mem_iff
  have hkey := hs.primaryKey_normalizeKey t t
  have hleft : ∀ m, m ∈ ((s.normalizeKey t none).mappingsOf r).filter (fun m => s.isKey m.pk) ↔
      m ∈ s.mappingsOf r ∧ m.pk ∈ s.primaryKey t := fun m => by
    rw [List.mem_filter, hmem]
    exact and_congr_right fun hm => (hs.pk_mem_primaryKey hr hm).symm
  have hright : ∀ m, m ∈ (s.primaryKey t).filterMap
      (fun c => (s.mappingsOf r).find? fun m => m.pk = c) ↔
      m ∈ s.mappingsOf r ∧ m.pk ∈ s.primaryKey t := fun m => by
    simp only [List.mem_filterMap, hs.find?_mapping_iff]
    constructor
    · rintro ⟨c, hc, hm, rfl⟩
      exact ⟨hm, hc⟩
    · rintro ⟨hm, hc⟩
      exact ⟨m.pk, hc, hm, rfl⟩
  have hnodup : ((s.primaryKey t).filterMap
      fun c => (s.mappingsOf r).find? fun m => m.pk = c).Nodup := by
    refine List.Nodup.filterMap (fun c c' m hc hc' => ?_) (hs.primaryKey_nodup t)
    exact ((hs.find?_mapping_iff.mp hc).2).symm.trans (hs.find?_mapping_iff.mp hc').2
  have hsorted : ((s.primaryKey t).filterMap fun c => (s.mappingsOf r).find? fun m => m.pk = c).Pairwise
      fun m m' => (s.normalizeKey t none).mappingRank m ≤ (s.normalizeKey t none).mappingRank m' := by
    have hasc := (s.normalizeKey t none).primaryKey_ascends t
    rw [hkey] at hasc
    refine List.pairwise_filterMap.mpr (hasc.imp fun {c c'} hle m hm m' hm' => ?_)
    rw [mappingRank, mappingRank, (hs.find?_mapping_iff.mp hm).2, (hs.find?_mapping_iff.mp hm').2]
    exact hle
  -- the same mappings, and both lists ascend in the new ranks
  have hperm := (List.perm_ext_iff_of_nodup ((hs'.mappings_nodup r).filter _) hnodup).mpr
    fun m => (hleft m).trans (hright m).symm
  refine hperm.eq_of_pairwise (fun m m' hm hm' hle hle' => ?_)
    ((inOrder_normalizeKey none hr).filter _) hsorted
  obtain ⟨hm, hpk⟩ := (hleft m).mp hm
  obtain ⟨hm', hpk'⟩ := (hright m').mp hm'
  rw [← hkey] at hpk hpk'
  exact hs.pk_unique hm hm' ((hs.numbered_normalizeKey t none).antisymm hpk hpk' hle hle')

/-- The mappings of a relationship that a table exports, once its key has been normalized. -/
theorem Sound.mappings_normalizeKey (hapart : s.RanksApart t r) :
    (s.normalizeKey t none).mappingsOf r = s.keyedFirst t r := by
  have hre := reranks_normalizeKey t none s
  have hmem : ∀ {m}, m ∈ (s.normalizeKey t none).mappingsOf r ↔ m ∈ s.mappingsOf r :=
    fun {m} => (hre.mappingsOf r).mem_iff
  -- no mapping of a key column comes after one of another column
  have hfront : ((s.normalizeKey t none).mappingsOf r).Pairwise fun m m' =>
      s.isKey m'.pk = true → s.isKey m.pk = true := by
    refine List.Pairwise.imp_of_mem (fun {m m'} hm hm' hle hk' => ?_) (inOrder_normalizeKey none hr)
    rcases hapart with hkeys | hfit
    · exact hkeys m (hmem.mp hm)
    · obtain ⟨k, hk⟩ := isKey_iff.mp ((hs.isKey_normalizeKey t none m'.pk).trans hk')
      have hlt := (hs.numbered_normalizeKey t none).rank_lt (by
        rw [hs.primaryKey_normalizeKey]
        exact (hs.pk_mem_primaryKey hr (hmem.mp hm')).mpr hk') hk
      rw [hs.primaryKey_normalizeKey] at hlt
      rw [← hs.isKey_normalizeKey t none]
      refine isKey_of_mappingRank fun hlast => ?_
      rw [hlast, mappingRank, hk, Option.getD_some] at hle
      omega
  calc (s.normalizeKey t none).mappingsOf r
      = ((s.normalizeKey t none).mappingsOf r).filter (fun m => s.isKey m.pk) ++
          ((s.normalizeKey t none).mappingsOf r).filter fun m => !s.isKey m.pk :=
        (filter_append_filter_not hfront).symm
    _ = s.keyedFirst t r := by
        rw [hs.filter_key_normalizeKey hr, hs.filter_normalizeKey t fun m _ hm => by simpa using hm]
        rfl

end

/-! ## What normalizing comes to -/

/-- Whether the second schema is the first one with the key of a table normalized. -/
structure Normalizes (t : TableId) (s s' : Schema) : Prop where
  /-- The key has the order it had, and ranks that count from zero. -/
  key : s'.primaryKey t = s.primaryKey t
  ranks : (s.primaryKey t).map s'.rank? = (List.range (s.primaryKey t).length).map some
  /-- The relationships that the table exports have the mappings they had, now in order. -/
  perm : ∀ r ∈ s.exportsOf t, (s'.mappingsOf r).Perm (s.mappingsOf r)
  mappings : ∀ r ∈ s.exportsOf t, s.RanksApart t r → s'.mappingsOf r = s.keyedFirst t r
  /-- One event tells of each rank that differs, and one of each relationship that does. -/
  raised : s'.raised = s.raised ++
    (((s.primaryKey t).filter fun c => s'.rank? c ≠ s.rank? c).map fun c =>
      reranked c (s.rank? c) (s'.rank? c)) ++
    ((s.exportsOf t).filter fun r => s'.mappingsOf r ≠ s.mappingsOf r).map fun r =>
      .structureChanged (.relationship r)
  /-- Nothing differs but ranks and the order of mappings, and these not elsewhere. -/
  reranks : Reranks s s'
  otherRanks : ∀ c, c ∉ s.primaryKey t → s'.rank? c = s.rank? c
  otherMappings : ∀ r, r ∉ s.exportsOf t → s'.mappingsOf r = s.mappingsOf r

theorem Sound.raised_normalizeKey (hs : s.Sound) (t : TableId) :
    (s.normalizeKey t none).raised = s.raised ++
      (((s.primaryKey t).filter fun c => (s.normalizeKey t none).rank? c ≠ s.rank? c).map fun c =>
        reranked c (s.rank? c) ((s.normalizeKey t none).rank? c)) ++
      ((s.exportsOf t).filter fun r =>
        (s.normalizeKey t none).mappingsOf r ≠ s.mappingsOf r).map fun r =>
          .structureChanged (.relationship r) := by
  have hexports := (reranks_renumber 0 (s.keyOrder t none) s).sameFrame.exportsOf t
  have hmoved : ∀ r ∈ s.exportsOf t, (renumber 0 (s.keyOrder t none) s).inKeyOrder (s.mappingsOf r) =
      (s.normalizeKey t none).mappingsOf r := fun r hr => by
    rw [normalizeKey, hexports, mappingsOf_syncAll (hs.exportsOf_nodup t) _ hr, mappingsOf_renumber]
  rw [← hs.raised_numbering]
  conv_lhs => rw [normalizeKey, hexports, raised_syncAll (hs.exportsOf_nodup t)]
  refine congrArg (_ ++ List.map _ ·) (List.filter_congr fun r hr => ?_)
  rw [mappingsOf_renumber, hmoved r hr]

theorem Sound.normalizes (hs : s.Sound) (t : TableId) : Normalizes t s (s.normalizeKey t none) where
  key := hs.primaryKey_normalizeKey t t
  ranks := hs.numbered_along t
  perm _ _ := (reranks_normalizeKey t none s).mappingsOf _
  mappings _ hr hapart := hs.mappings_normalizeKey hr hapart
  raised := hs.raised_normalizeKey t
  reranks := reranks_normalizeKey t none s
  otherRanks _ hc := rank?_normalizeKey_of_not none fun h => hc (mem_primaryKey.mpr h)
  otherMappings _ hr := mappingsOf_normalizeKey_of_notMem none hr

/-- A normalized key is not changed by normalizing it again. -/
theorem Sound.normalizeKey_again (hs : s.Sound) (t : TableId) :
    (s.normalizeKey t none).normalizeKey t none = s.normalizeKey t none := by
  have hexports := (reranks_normalizeKey t none s).sameFrame.exportsOf t
  refine normalizeKey_eq_self (fun i c hc => ?_) fun r hr => inOrder_normalizeKey none (hexports ▸ hr)
  rw [hs.primaryKey_normalizeKey] at hc
  have hi : i < (s.primaryKey t).length := (List.getElem?_eq_some_iff.mp hc).1
  have hrank := congrArg (fun ranks => ranks[i]?) (hs.numbered_along t)
  simp only [List.getElem?_map, hc, List.getElem?_range hi, Option.map_some] at hrank
  exact Option.some.inj hrank

end Schema

/-- The public edit normalizes the key of a stored table, whatever the table's switches say. -/
theorem Op.perform_normalizePrimaryKey {s : Schema} (hs : s.Sound) {t : TableId}
    (ht : s.tables.contains t = true) :
    (Op.normalizePrimaryKey t).perform s = (.ok .done, s.normalizeKey t none) := by
  obtain ⟨tbl, htbl⟩ := (Roster.contains_iff _ _).mp ht
  have hends : (Op.normalizePrimaryKey t).edit.Ends
      (fun reply s' => reply = .done ∧ s' = s.normalizeKey t none) (fun _ _ => False) s := by
    apply (Edit.ends_map _ _).mpr
    unfold Edit.normalizePrimaryKey
    rw [Edit.ends_bind, Edit.ends_discard, Edit.ends_table_of htbl, Edit.ends_normalizeKey_of hs ht]
    exact ⟨rfl, rfl⟩
  exact hends.perform_eq

/-- In a schema that can be reached, the key of a stored table can always be normalized, and doing so
again changes nothing and tells nothing. -/
theorem Schema.Reachable.key_normalizing {s : Schema} (h : s.Reachable) {t : TableId}
    (ht : s.tables.contains t = true) :
    ∃ s', (Op.normalizePrimaryKey t).perform s = (.ok .done, s') ∧ s.Normalizes t s' ∧
      (Op.normalizePrimaryKey t).perform s' = (.ok .done, s') := by
  have hnormalizes := h.sound.normalizes t
  have ht' : (s.normalizeKey t none).tables.contains t = true :=
    (hnormalizes.reranks.sameShape.contains_table t).trans ht
  refine ⟨_, Op.perform_normalizePrimaryKey h.sound ht, hnormalizes, ?_⟩
  rw [Op.perform_normalizePrimaryKey (hnormalizes.reranks.sound h.sound) ht',
    h.sound.normalizeKey_again]

/-- A table whose key has a gap and a tie, with a relationship that is not registered with its child:
it maps two of the key columns against their order, and a column outside the key before them. -/
def unorderedMoves : List Move :=
  [.edit (.addTable { name := "a" }),
    .edit (.addTable { name := "b" }),
    .edit (.setMagicEnabled ⟨1⟩ false),
    .edit (.addColumn ⟨1⟩ { name := "w", rank := some 7 }),
    .edit (.addColumn ⟨1⟩ { name := "x", rank := some 7 }),
    .edit (.addColumn ⟨1⟩ { name := "y", rank := some 0 }),
    .edit (.addColumn ⟨1⟩ { name := "z", rank := some 3 }),
    .edit (.addColumn ⟨2⟩ { name := "w" }),
    .edit (.addColumn ⟨2⟩ { name := "y" }),
    .edit (.addColumn ⟨2⟩ { name := "z" }),
    .edit (.createRelationship { name := "ab" }),
    .edit (.setParent ⟨1⟩ (some ⟨1⟩)),
    .edit (.setChild ⟨1⟩ (some ⟨2⟩)),
    .edit (.addMapping ⟨1⟩ ⟨3⟩ ⟨6⟩),
    .edit (.addMapping ⟨1⟩ ⟨1⟩ ⟨5⟩),
    .edit (.addMapping ⟨1⟩ ⟨4⟩ ⟨7⟩),
    .edit (.addExportedKey ⟨1⟩ ⟨1⟩),
    .edit (.setPrimaryKeySeq ⟨3⟩ none)]

/-- The key keeps its order, and the mappings follow it, that of the other column last. -/
theorem Schema.key_normalizing_unordered : ∃ s s' : Schema, s.Reachable ∧ s.isLive ⟨1⟩ = false ∧
    s.primaryKey ⟨1⟩ = [⟨4⟩, ⟨1⟩, ⟨2⟩] ∧ s.mappingsOf ⟨1⟩ = [⟨⟨3⟩, ⟨6⟩⟩, ⟨⟨1⟩, ⟨5⟩⟩, ⟨⟨4⟩, ⟨7⟩⟩] ∧
    (Op.normalizePrimaryKey ⟨1⟩).perform s = (.ok .done, s') ∧ s.Normalizes ⟨1⟩ s' ∧
    (Op.normalizePrimaryKey ⟨1⟩).perform s' = (.ok .done, s') ∧
    s'.mappingsOf ⟨1⟩ = [⟨⟨4⟩, ⟨7⟩⟩, ⟨⟨1⟩, ⟨5⟩⟩, ⟨⟨3⟩, ⟨6⟩⟩] := by
  have hreach : Schema.Reachable ((Moment.start {}).run unorderedMoves).schema :=
    ⟨{}, unorderedMoves, rfl⟩
  obtain ⟨s', hok, h, hagain⟩ := hreach.key_normalizing (t := ⟨1⟩) (by decide +kernel)
  have hmappings := h.mappings ⟨1⟩ (by decide +kernel) (.inr (by decide +kernel))
  refine ⟨_, s', hreach, by decide +kernel, by decide +kernel, by decide +kernel, hok, h, hagain, ?_⟩
  exact hmappings.trans (by decide +kernel)

end KeyedSchema
