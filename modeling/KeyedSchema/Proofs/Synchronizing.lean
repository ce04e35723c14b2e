import KeyedSchema.Proofs.Normalizing

/-!
# Synchronizing — the mappings of a relationship in the order of the key

Putting the mappings of a relationship in order is one sort, by a number that is the rank of a
column in the key and the last rank there is (`lastRank`) of every other column. Ranks may have any
gaps and ties: mappings of key columns ascend by rank, ties and the mappings of other columns stay
as they were, and one event tells of it if anything moved.

That the mappings of key columns come first holds below the last rank only. A key column may have
the last rank itself, and then nothing tells it from a column outside the key: what was mapped
before it stays before it (`Synchronizes.parted`).
-/

namespace KeyedSchema

namespace Schema

variable {s : Schema} {r : RelationshipId} {m m' : Mapping}

/-! ## Mappings in and outside the key -/

/-- The key that the mappings of a relationship follow: that of its parent. -/
def followedKey (s : Schema) (r : RelationshipId) : List ColumnId :=
  (s.parent? r).elim [] s.primaryKey

/-- Whether no mapping of a column in `key` comes after one of a column outside of it. -/
def KeyInFront (key : List ColumnId) (ms : List Mapping) : Prop :=
  ms.Pairwise fun m m' => m'.pk ∈ key → m.pk ∈ key

/-- Of the columns that a relationship maps, those in the key are those that have a rank. -/
theorem Sound.mem_followedKey (hs : s.Sound) (hm : m ∈ s.mappingsOf r) :
    m.pk ∈ s.followedKey r ↔ s.isKey m.pk = true := by
  obtain ⟨p, _, hp, -⟩ := hs.mapped r m hm
  unfold followedKey
  rw [hp, Option.elim_some, mem_primaryKey, hs.listed]
  exact and_iff_right (hs.pk_owner hm hp)

theorem Sound.mem_followedKey_of_rank (hs : s.Sound) (hm : m ∈ s.mappingsOf r) {k : Nat}
    (hk : s.rank? m.pk = some k) : m.pk ∈ s.followedKey r :=
  (hs.mem_followedKey hm).mpr (isKey_iff.mpr ⟨k, hk⟩)

/-- Where columns outside the key belong. -/
theorem Sound.mappingRank_of_notMem (hs : s.Sound) (hm : m ∈ s.mappingsOf r)
    (hout : m.pk ∉ s.followedKey r) : s.mappingRank m = lastRank := by
  by_contra hne
  exact hout ((hs.mem_followedKey hm).mpr (isKey_of_mappingRank hne))

theorem mappingRank_of_rank {k : Nat} (hk : s.rank? m.pk = some k) : s.mappingRank m = k := by
  simp [mappingRank, hk]

/-- What belongs where the columns outside the key do: these, and key columns of the last rank. -/
theorem Sound.mappingRank_eq_lastRank (hs : s.Sound) (hm : m ∈ s.mappingsOf r) :
    s.mappingRank m = lastRank ↔ m.pk ∉ s.followedKey r ∨ s.rank? m.pk = some lastRank := by
  constructor
  · intro hlast
    cases hk : s.rank? m.pk with
    | none => exact .inl fun hin => by simpa [isKey, hk] using (hs.mem_followedKey hm).mp hin
    | some k => exact .inr (congrArg some ((mappingRank_of_rank hk).symm.trans hlast))
  · rintro (hout | hk)
    · exact hs.mappingRank_of_notMem hm hout
    · exact mappingRank_of_rank hk

/-! ## A relationship in order -/

/-- Whether the second schema is the first one with the mappings of a relationship put in order. -/
structure Synchronizes (r : RelationshipId) (s s' : Schema) : Prop where
  perm : (s'.mappingsOf r).Perm (s.mappingsOf r)
  /-- Mappings of key columns ascend by rank, and keep their order where ranks are the same. -/
  ascending : (s'.mappingsOf r).Pairwise fun m m' => ∀ k k',
    s.rank? m.pk = some k → s.rank? m'.pk = some k' → k ≤ k'
  ties : ∀ k, (s'.mappingsOf r).filter (fun m => s.rank? m.pk = some k) =
    (s.mappingsOf r).filter fun m => s.rank? m.pk = some k
  /-- Mappings of columns outside the key keep their order. -/
  others : (s'.mappingsOf r).filter (fun m => m.pk ∉ s.followedKey r) =
    (s.mappingsOf r).filter fun m => m.pk ∉ s.followedKey r
  /-- What comes before a key column below the last rank is in the key. -/
  front : (s'.mappingsOf r).Pairwise fun m m' =>
    (∃ k, s.rank? m'.pk = some k ∧ k < lastRank) → m.pk ∈ s.followedKey r
  /-- Key columns of the last rank are not told from columns outside the key. -/
  last : (s'.mappingsOf r).filter
      (fun m => m.pk ∉ s.followedKey r ∨ s.rank? m.pk = some lastRank) =
    (s.mappingsOf r).filter fun m => m.pk ∉ s.followedKey r ∨ s.rank? m.pk = some lastRank
  /-- So with no rank above the last one, the key is in front unless a key column of the last rank
  was mapped after a column outside the key. -/
  parted : (∀ m ∈ s.mappingsOf r, ∀ k, s.rank? m.pk = some k → k ≤ lastRank) →
    (KeyInFront (s.followedKey r) (s'.mappingsOf r) ↔
      (s.mappingsOf r).Pairwise fun m m' =>
        s.rank? m'.pk = some lastRank → m.pk ∈ s.followedKey r)
  /-- One event tells of it if anything moved. -/
  raised : s'.raised = s.raised ++
    if s'.mappingsOf r = s.mappingsOf r then [] else [.structureChanged (.relationship r)]
  /-- Nothing differs but the order of these mappings. -/
  reranks : Reranks s s'
  columns : s'.columns = s.columns
  otherMappings : ∀ r', r' ≠ r → s'.mappingsOf r' = s.mappingsOf r'

section

variable (hs : s.Sound) (r : RelationshipId)

include hs

/-- A column outside the key is sorted behind all key columns below the last rank. -/
theorem Sound.front_inKeyOrder : (s.inKeyOrder (s.mappingsOf r)).Pairwise fun m m' =>
    (∃ k, s.rank? m'.pk = some k ∧ k < lastRank) → m.pk ∈ s.followedKey r := by
  refine (sortOn_sorted s.mappingRank _).imp_of_mem fun {m m'} hm _ hle => ?_
  rintro ⟨k, hk, hlt⟩
  rw [mappingRank_of_rank hk] at hle
  by_contra hout
  rw [hs.mappingRank_of_notMem ((mem_sortOn _ _ m).mp hm) hout] at hle
  omega

theorem Sound.last_inKeyOrder : (s.inKeyOrder (s.mappingsOf r)).filter
      (fun m => m.pk ∉ s.followedKey r ∨ s.rank? m.pk = some lastRank) =
    (s.mappingsOf r).filter fun m => m.pk ∉ s.followedKey r ∨ s.rank? m.pk = some lastRank :=
  -- all of them are sorted by the same number
  filter_sortOn_of_tie fun _ hm hp => (hs.mappingRank_eq_lastRank hm).mpr (of_decide_eq_true hp)

/-- Whether the key comes to be in front is seen from the mappings of the last rank, which stay in
the order that they have. -/
theorem Sound.keyInFront_inKeyOrder
    (hranks : ∀ m ∈ s.mappingsOf r, ∀ k, s.rank? m.pk = some k → k ≤ lastRank) :
    KeyInFront (s.followedKey r) (s.inKeyOrder (s.mappingsOf r)) ↔
      (s.mappingsOf r).Pairwise fun m m' =>
        s.rank? m'.pk = some lastRank → m.pk ∈ s.followedKey r := by
  have hmem : ∀ {m}, m ∈ s.inKeyOrder (s.mappingsOf r) ↔ m ∈ s.mappingsOf r :=
    fun {m} => mem_sortOn _ _ m
  have hlast := hs.last_inKeyOrder r
  constructor
  · intro hfront
    have hkept := hfront.filter fun m =>
      decide (m.pk ∉ s.followedKey r ∨ s.rank? m.pk = some lastRank)
    rw [hlast, List.pairwise_filter] at hkept
    refine hkept.imp_of_mem fun {m m'} _ hm' hpair hk' => ?_
    -- a column outside the key and one of the last rank are in the order that they were in
    by_contra hout
    exact hout (hpair (decide_eq_true (.inl hout)) (decide_eq_true (.inr hk'))
      (hs.mem_followedKey_of_rank hm' hk'))
  · intro hold
    have hkept := hold.filter fun m =>
      decide (m.pk ∉ s.followedKey r ∨ s.rank? m.pk = some lastRank)
    rw [← hlast, List.pairwise_filter] at hkept
    refine (hkept.and (hs.front_inKeyOrder r)).imp_of_mem fun {m m'} hm hm' hpair hin => ?_
    obtain ⟨k', hk'⟩ := isKey_iff.mp ((hs.mem_followedKey (hmem.mp hm')).mp hin)
    by_contra hout
    rcases Nat.lt_or_eq_of_le (hranks m' (hmem.mp hm') k' hk') with hlt | rfl
    · exact hout (hpair.2 ⟨k', hk', hlt⟩)
    · exact hout (hpair.1 (decide_eq_true (.inl hout)) (decide_eq_true (.inr hk')) hk')

theorem Sound.synchronizes : Synchronizes r s (s.syncMappingOrder r) := by
  have hmoved : (s.syncMappingOrder r).mappingsOf r = s.inKeyOrder (s.mappingsOf r) := by
    rw [mappingsOf_syncMappingOrder, if_pos rfl]
  constructor
  case perm => exact (reranks_syncMappingOrder r s).mappingsOf r
  case ascending =>
    rw [hmoved]
    refine (sortOn_sorted s.mappingRank _).imp fun {m m'} hle k k' hk hk' => ?_
    rwa [mappingRank_of_rank hk, mappingRank_of_rank hk'] at hle
  case ties =>
    intro k
    rw [hmoved]
    exact filter_sortOn_of_tie fun m _ hk => mappingRank_of_rank (of_decide_eq_true hk)
  case others =>
    rw [hmoved]
    exact filter_sortOn_of_tie fun m hm hout =>
      hs.mappingRank_of_notMem hm (of_decide_eq_true hout)
  case front =>
    rw [hmoved]
    exact hs.front_inKeyOrder r
  case last =>
    rw [hmoved]
    exact hs.last_inKeyOrder r
  case parted =>
    rw [hmoved]
    exact hs.keyInFront_inKeyOrder r
  case raised =>
    rw [hmoved]
    exact raised_syncMappingOrder r s
  case reranks => exact reranks_syncMappingOrder r s
  case columns => exact syncMappingOrder_columns r s
  case otherMappings =>
    intro r' hne
    rw [mappingsOf_syncMappingOrder, if_neg hne]

end

/-- In a schema that can be reached, whatever ranks its columns have, the mappings of a relationship
are put in order: by rank where they are in the key and below the last rank, then all others as they
were. -/
theorem Reachable.mappings_synchronized (h : s.Reachable) (r : RelationshipId) :
    Synchronizes r s (s.syncMappingOrder r) := h.sound.synchronizes r

/-- A table whose magic is off, with three key columns. A relationship maps the first, which then
leaves the key, the second, which has the last rank, and the third. -/
def brimmingMoves : List Move :=
  [.edit (.addTable { name := "a" }), .edit (.addTable { name := "b" }),
    .edit (.setMagicEnabled ⟨1⟩ false),
    .edit (.addColumn ⟨1⟩ { name := "x", rank := some 0 }),
    .edit (.addColumn ⟨1⟩ { name := "y", rank := some lastRank }),
    .edit (.addColumn ⟨1⟩ { name := "z", rank := some 7 }),
    .edit (.addColumn ⟨2⟩ { name := "x" }), .edit (.addColumn ⟨2⟩ { name := "y" }),
    .edit (.addColumn ⟨2⟩ { name := "z" }),
    .edit (.createRelationship { name := "ab" }),
    .edit (.setParent ⟨1⟩ (some ⟨1⟩)), .edit (.setChild ⟨1⟩ (some ⟨2⟩)),
    .edit (.addMapping ⟨1⟩ ⟨1⟩ ⟨4⟩), .edit (.addMapping ⟨1⟩ ⟨2⟩ ⟨5⟩),
    .edit (.addMapping ⟨1⟩ ⟨3⟩ ⟨6⟩),
    .edit (.setPrimaryKeySeq ⟨1⟩ none)]

/-- The tables once the first column has left the key. -/
def brimming : Schema := ((Moment.start {}).run brimmingMoves).schema

/-- The third mapping comes to the front, and the second, though of a key column, stays behind that
of the column outside the key. -/
theorem mappings_synchronized_brimming : brimming.Reachable ∧
    Synchronizes ⟨1⟩ brimming (brimming.syncMappingOrder ⟨1⟩) ∧
    [⟨1⟩, ⟨2⟩, ⟨3⟩].map brimming.rank? = [none, some lastRank, some 7] ∧
    (brimming.mappingsOf ⟨1⟩).map Mapping.pk = [⟨1⟩, ⟨2⟩, ⟨3⟩] ∧
    ((brimming.syncMappingOrder ⟨1⟩).mappingsOf ⟨1⟩).map Mapping.pk = [⟨3⟩, ⟨1⟩, ⟨2⟩] ∧
    ¬ KeyInFront (brimming.followedKey ⟨1⟩) ((brimming.syncMappingOrder ⟨1⟩).mappingsOf ⟨1⟩) := by
  have hreach : brimming.Reachable := ⟨{}, brimmingMoves, rfl⟩
  have h := hreach.mappings_synchronized ⟨1⟩
  have hmappings : brimming.mappingsOf ⟨1⟩ = [⟨⟨1⟩, ⟨4⟩⟩, ⟨⟨2⟩, ⟨5⟩⟩, ⟨⟨3⟩, ⟨6⟩⟩] := by decide +kernel
  have hkey : brimming.followedKey ⟨1⟩ = [⟨3⟩, ⟨2⟩] := by decide +kernel
  have hranks : [⟨1⟩, ⟨2⟩, ⟨3⟩].map brimming.rank? = [none, some lastRank, some 7] := by
    decide +kernel
  refine ⟨hreach, h, hranks, by decide +kernel, by decide +kernel, fun hfront => ?_⟩
  -- the second column has the last rank, and is mapped after one outside the key
  simp only [List.map_cons, List.map_nil, List.cons.injEq, and_true] at hranks
  have hbefore := (h.parted (by simp [hmappings, hranks, lastRank])).mp hfront
  simp [hmappings, hkey, hranks] at hbefore

end Schema

end KeyedSchema
