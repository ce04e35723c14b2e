import KeyedSchema.Proofs.Cut
import KeyedSchema.Proofs.Graft
import KeyedSchema.Proofs.KeyOrder

/-!
# Mirror — relationships that follow the key of their parent

A schema mirrors its keys if every live relationship maps exactly the key columns of its parent, in
key order, and every key is numbered. In the middle of a cascade it does so but for what is still to
be done: mappings of columns that have left the key, key columns that are not mapped, relationships
out of order, and keys with gaps. `Mirrors` has one predicate for each of these exceptions, and each
change that a cascade makes adds to them or takes away from them.
-/

namespace KeyedSchema

namespace Schema

variable {s s' s'' : Schema} {t t' p : TableId} {c pk : ColumnId} {r : RelationshipId}
  {key : List ColumnId}
  {stray missing : RelationshipId → ColumnId → Prop} {unordered : RelationshipId → Prop}
  {unnumbered : TableId → Prop}

/-- Whether a schema mirrors its keys, but for the exceptions. -/
structure Mirrors (stray missing : RelationshipId → ColumnId → Prop)
    (unordered : RelationshipId → Prop) (unnumbered : TableId → Prop) (s : Schema) : Prop where
  straight : ∀ r m, s.isLive r = true → m ∈ s.mappingsOf r → s.isKey m.pk = true ∨ stray r m.pk
  complete : ∀ r p x, s.isLive r = true → s.parent? r = some p → s.owner? x = some p →
    s.isKey x = true → x ∈ (s.mappingsOf r).map Mapping.pk ∨ missing r x
  ordered : ∀ r, s.isLive r = true → s.InOrder r ∨ unordered r
  numbered : ∀ t, s.Numbered t ∨ unnumbered t

/-- Exceptions may be exchanged for others that cover the cases that are there. -/
theorem Mirrors.mono {stray' missing' : RelationshipId → ColumnId → Prop}
    {unordered' : RelationshipId → Prop} {unnumbered' : TableId → Prop}
    (h : Mirrors stray missing unordered unnumbered s)
    (hstray : ∀ r m, s.isLive r = true → m ∈ s.mappingsOf r → stray r m.pk → stray' r m.pk)
    (hmissing : ∀ r p x, s.isLive r = true → s.parent? r = some p → s.owner? x = some p →
      x ∉ (s.mappingsOf r).map Mapping.pk → missing r x → missing' r x)
    (hunordered : ∀ r, s.isLive r = true → unordered r → unordered' r)
    (hunnumbered : ∀ t, unnumbered t → unnumbered' t) :
    Mirrors stray' missing' unordered' unnumbered' s where
  straight r m hl hm := (h.straight r m hl hm).imp_right (hstray r m hl hm)
  complete r p x hl hp ho hk := by
    by_cases hx : x ∈ (s.mappingsOf r).map Mapping.pk
    · exact .inl hx
    · exact .inr (hmissing r p x hl hp ho hx ((h.complete r p x hl hp ho hk).resolve_left hx))
  ordered r hl := (h.ordered r hl).imp_right (hunordered r hl)
  numbered t := (h.numbered t).imp_right (hunnumbered t)

/-! ## What a mirrored key looks like -/

/-- Two key columns of a numbered key with the same rank are one. -/
theorem Numbered.rank_inj (h : s.Numbered t) {c c' : ColumnId} {k : Nat}
    (hc : c ∈ s.columnsOf t) (hc' : c' ∈ s.columnsOf t) (hk : s.rank? c = some k)
    (hk' : s.rank? c' = some k) : c = c' := by
  have hnd : ((s.keyRanks t).map Prod.snd).Nodup := h.nodup_iff.mpr List.nodup_range
  have := List.inj_on_of_nodup_map hnd (mem_keyRanks.mpr ⟨hc, hk⟩) (mem_keyRanks.mpr ⟨hc', hk'⟩) rfl
  exact congrArg Prod.fst this

/-- Of two columns of a numbered key one comes first. -/
theorem Numbered.antisymm (h : s.Numbered t) {x y : ColumnId} (hx : x ∈ s.primaryKey t)
    (hy : y ∈ s.primaryKey t) (hxy : (s.rank? x).getD lastRank ≤ (s.rank? y).getD lastRank)
    (hyx : (s.rank? y).getD lastRank ≤ (s.rank? x).getD lastRank) : x = y := by
  obtain ⟨hxl, hxk⟩ := mem_primaryKey.mp hx
  obtain ⟨hyl, hyk⟩ := mem_primaryKey.mp hy
  obtain ⟨i, hi⟩ := isKey_iff.mp hxk
  obtain ⟨j, hj⟩ := isKey_iff.mp hyk
  simp only [hi, hj, Option.getD_some] at hxy hyx
  obtain rfl : i = j := Nat.le_antisymm hxy hyx
  exact h.rank_inj hxl hyl hi hj

/-- The ranks of a numbered key, read along the key, are `0`, `1`, … -/
theorem Numbered.ranks (h : s.Numbered t) :
    (s.primaryKey t).map s.rank? = (List.range (s.primaryKey t).length).map some := by
  have hsorted : (sortOn Prod.snd (s.keyRanks t)).map Prod.snd =
      List.range (s.primaryKey t).length := by
    have hlen : (s.primaryKey t).length = (s.keyRanks t).length := by
      simp [primaryKey, (sortOn_perm Prod.snd (s.keyRanks t)).length_eq]
    rw [hlen]
    have hasc : ((sortOn Prod.snd (s.keyRanks t)).map Prod.snd).Pairwise (· ≤ ·) :=
      List.pairwise_map.mpr (sortOn_sorted _ _)
    exact List.Perm.eq_of_pairwise (fun a b _ _ => Nat.le_antisymm) hasc
      (List.pairwise_lt_range.imp Nat.le_of_lt)
      (((sortOn_perm Prod.snd (s.keyRanks t)).map Prod.snd).trans h)
  rw [← hsorted, primaryKey, List.map_map, List.map_map]
  refine List.map_congr_left fun e he => ?_
  exact (mem_keyRanks.mp ((mem_sortOn _ _ e).mp he)).2

/-- A numbered key has no rank beyond its length. -/
theorem Numbered.rank_lt (h : s.Numbered t) (hc : c ∈ s.primaryKey t) {k : Nat}
    (hk : s.rank? c = some k) : k < (s.primaryKey t).length := by
  have hmem : some k ∈ (s.primaryKey t).map s.rank? := hk ▸ List.mem_map_of_mem hc
  rw [h.ranks] at hmem
  simpa using hmem

/-- A key that is numbered along the key is numbered. -/
theorem numbered_of_ranks (h : ∀ i c, (s.primaryKey t)[i]? = some c → s.rank? c = some i) :
    s.Numbered t := by
  have hranks : (sortOn Prod.snd (s.keyRanks t)).map Prod.snd =
      List.range (s.keyRanks t).length := by
    refine List.ext_getElem? fun i => ?_
    have hlen := (sortOn_perm Prod.snd (s.keyRanks t)).length_eq
    rw [List.getElem?_map]
    cases he : (sortOn Prod.snd (s.keyRanks t))[i]? with
    | none =>
        have := List.getElem?_eq_none_iff.mp he
        simp [List.getElem?_eq_none_iff.mpr (show (List.range (s.keyRanks t).length).length ≤ i by
          simpa using hlen ▸ this)]
    | some e =>
        have hi : i < (s.keyRanks t).length := hlen ▸ (List.getElem?_eq_some_iff.mp he).1
        have hkey : (s.primaryKey t)[i]? = some e.1 := by simp [primaryKey, he]
        have hrank := (mem_keyRanks.mp ((mem_sortOn _ _ e).mp (List.mem_of_getElem? he))).2
        rw [h i e.1 hkey] at hrank
        obtain rfl := Option.some.inj hrank
        simp [hi]
  unfold Numbered
  rw [← hranks]
  exact ((sortOn_perm Prod.snd (s.keyRanks t)).map Prod.snd).symm

/-- A key ascends in the ranks of its columns. -/
theorem primaryKey_ascends (s : Schema) (t : TableId) : (s.primaryKey t).Pairwise fun x y =>
    (s.rank? x).getD lastRank ≤ (s.rank? y).getD lastRank := by
  refine List.pairwise_map.mpr ((sortOn_sorted Prod.snd (s.keyRanks t)).imp_of_mem ?_)
  intro e e' he he' hle
  rw [(mem_keyRanks.mp ((mem_sortOn _ _ e).mp he)).2, (mem_keyRanks.mp ((mem_sortOn _ _ e').mp he')).2]
  exact hle

/-- Whether the key of a table consists of the columns of a list, numbered along the list. -/
structure NumberedAs (t : TableId) (key : List ColumnId) (s : Schema) : Prop where
  mem_iff : ∀ x, x ∈ key ↔ s.owner? x = some t ∧ s.isKey x = true
  ranks : ∀ i x, key[i]? = some x → s.rank? x = some i

/-- A key is the list along which it is numbered. -/
theorem NumberedAs.primaryKey_eq (h : NumberedAs t key s) (hs : s.Sound) :
    s.primaryKey t = key := by
  have hasc : key.Pairwise fun x y => (s.rank? x).getD lastRank < (s.rank? y).getD lastRank := by
    rw [List.pairwise_iff_getElem]
    intro i j hi hj hij
    rw [h.ranks i _ (List.getElem?_eq_getElem hi), h.ranks j _ (List.getElem?_eq_getElem hj)]
    exact hij
  have hnd : key.Nodup := hasc.imp fun {x y} hlt => by
    rintro rfl
    exact Nat.lt_irrefl _ hlt
  have hmem : ∀ x, x ∈ s.primaryKey t ↔ x ∈ key := fun x => by
    rw [mem_primaryKey, hs.listed, h.mem_iff]
  refine List.Perm.eq_of_pairwise (fun x y hx hy hxy hyx => ?_) (s.primaryKey_ascends t)
    (hasc.imp Nat.le_of_lt) ((List.perm_ext_iff_of_nodup (hs.primaryKey_nodup t) hnd).mpr hmem)
  -- columns of the list with the same rank are at the same place
  obtain ⟨i, hi⟩ := List.mem_iff_getElem?.mp ((hmem x).mp hx)
  obtain ⟨j, hj⟩ := List.mem_iff_getElem?.mp hy
  rw [h.ranks i x hi, h.ranks j y hj] at hxy hyx
  obtain rfl : i = j := Nat.le_antisymm hxy hyx
  exact Option.some.inj (hi.symm.trans hj)

theorem NumberedAs.numbered (h : NumberedAs t key s) (hs : s.Sound) : s.Numbered t :=
  numbered_of_ranks (h.primaryKey_eq hs ▸ h.ranks)

theorem NumberedAs.congr (h : NumberedAs t key s)
    (hmem : ∀ x, (s'.owner? x = some t ∧ s'.isKey x = true) ↔ s.owner? x = some t ∧ s.isKey x = true)
    (hranks : ∀ x, s.owner? x = some t → s'.rank? x = s.rank? x) : NumberedAs t key s' :=
  ⟨fun x => (h.mem_iff x).trans (hmem x).symm, fun i x hx =>
    (hranks x ((h.mem_iff x).mp (List.mem_of_getElem? hx)).1).trans (h.ranks i x hx)⟩

/-- Numbering a key numbers it along its order. -/
theorem Sound.numberedAs_normalizeKey (hs : s.Sound) (t : TableId) (placed : Option ColumnId) :
    NumberedAs t ((s.keyOrder t placed).map Prod.fst) (s.normalizeKey t placed) := by
  constructor
  · intro x
    rw [(reranks_normalizeKey t placed s).owner?, hs.isKey_normalizeKey, ← hs.listed]
    simp [List.mem_map, mem_keyOrder, isKey_iff]
  · intro i x hx
    rw [List.getElem?_map, Option.map_eq_some_iff] at hx
    obtain ⟨e, he, rfl⟩ := hx
    exact hs.rank?_normalizeKey_of_getElem? he

/-- Mappings that follow a key are in order. -/
theorem inOrder_of_mappings_eq (h : (s.mappingsOf r).map Mapping.pk = s.primaryKey t) :
    s.InOrder r := by
  have := s.primaryKey_ascends t
  rwa [← h, List.pairwise_map] at this

/-- Mappings in order that map exactly a numbered key follow it. -/
theorem Numbered.mappings_eq (h : s.Numbered t) (hs : s.Sound) (hord : s.InOrder r)
    (hmem : ∀ x, x ∈ (s.mappingsOf r).map Mapping.pk ↔ x ∈ s.primaryKey t) :
    (s.mappingsOf r).map Mapping.pk = s.primaryKey t := by
  -- the same columns without repetition, and both lists ascend
  have hperm := (List.perm_ext_iff_of_nodup (hs.pks_nodup r) (hs.primaryKey_nodup t)).mpr hmem
  have hasc : ((s.mappingsOf r).map Mapping.pk).Pairwise fun x y =>
      (s.rank? x).getD lastRank ≤ (s.rank? y).getD lastRank := List.pairwise_map.mpr hord
  exact List.Perm.eq_of_pairwise (fun x y hx hy => h.antisymm ((hmem x).mp hx) hy) hasc
    (s.primaryKey_ascends t) hperm

/-- A schema that mirrors its keys but for mappings that are owed. -/
abbrev MirrorsBut (debt : RelationshipId → ColumnId → Prop) (s : Schema) : Prop :=
  Mirrors (fun _ _ => False) debt (fun _ => False) (fun _ => False) s

/-- A schema that mirrors its keys without exception. -/
abbrev Mirrored (s : Schema) : Prop :=
  Mirrors (fun _ _ => False) (fun _ _ => False) (fun _ => False) (fun _ => False) s

/-- The mappings of a live relationship follow the key of its parent. -/
theorem Mirrored.mappings_eq (h : s.Mirrored) (hs : s.Sound) (hl : s.isLive r = true)
    (hp : s.parent? r = some p) : (s.mappingsOf r).map Mapping.pk = s.primaryKey p := by
  refine ((h.numbered p).resolve_right id).mappings_eq hs ((h.ordered r hl).resolve_right id) ?_
  intro x
  rw [mem_primaryKey, hs.listed]
  constructor
  · intro hx
    obtain ⟨m, hm, rfl⟩ := List.mem_map.mp hx
    exact ⟨hs.pk_owner hm hp, (h.straight r m hl hm).resolve_right id⟩
  · rintro ⟨ho, hk⟩
    exact (h.complete r p x hl hp ho hk).resolve_right id

/-! ## Changes that leave live relationships alone -/

/-- Whether every live relationship was live before with the same parent and mappings, and every
column had the same owner and rank. Relationships may have become dead, and columns gone. -/
structure Keeps (s s' : Schema) : Prop where
  isLive : ∀ r, s'.isLive r = true → s.isLive r = true
  parent? : ∀ r, s'.isLive r = true → s'.parent? r = s.parent? r
  mappingsOf : ∀ r, s'.isLive r = true → s'.mappingsOf r = s.mappingsOf r
  owner? : ∀ c, s'.columns.contains c = true → s'.owner? c = s.owner? c
  rank? : ∀ c, s'.columns.contains c = true → s'.rank? c = s.rank? c
  columnsOf : ∀ t, s'.columnsOf t = [] ∨ (s'.columnsOf t).Perm (s.columnsOf t)

theorem SameShape.keeps (h : SameShape s s') (hrank : ∀ c, s'.rank? c = s.rank? c)
    (hmap : ∀ r, s'.mappingsOf r = s.mappingsOf r) : Keeps s s' where
  isLive r hl := (h.isLive r).symm.trans hl
  parent? r _ := h.parent? r
  mappingsOf r _ := hmap r
  owner? c _ := h.owner? c
  rank? c _ := hrank c
  columnsOf t := .inr (h.columnsOf t)

theorem SameObjects.keeps (h : SameObjects s s') : Keeps s s' := by
  obtain ⟨held, raised, published, origins, rfl⟩ := h.exists_eq
  exact h.sameShape.keeps (fun _ => rfl) fun _ => rfl

theorem Keeps.mirrors (hk : Keeps s s') (hs' : s'.Sound)
    (h : Mirrors stray missing unordered unnumbered s) :
    Mirrors stray missing unordered unnumbered s' where
  straight r m hl hm := by
    rw [isKey_congr (hk.rank? _ (hs'.pk_stored hm))]
    exact h.straight r m (hk.isLive r hl) (hk.mappingsOf r hl ▸ hm)
  complete r p x hl hp ho hkey := by
    have hx := contains_of_owner? ho
    rw [hk.mappingsOf r hl]
    refine h.complete r p x (hk.isLive r hl) ((hk.parent? r hl).symm.trans hp)
      ((hk.owner? x hx).symm.trans ho) ?_
    exact (isKey_congr (hk.rank? x hx)).symm.trans hkey
  ordered r hl := (h.ordered r (hk.isLive r hl)).imp_left fun ho =>
    ho.congr (hk.mappingsOf r hl) fun m hm => hk.rank? _ (hs'.pk_stored hm)
  numbered t := by
    rcases hk.columnsOf t with hnil | hperm
    · exact .inl (numbered_of_columnsOf hnil)
    · refine (h.numbered t).imp_left fun hn => hn.congr hperm fun c hc => hk.rank? c ?_
      exact contains_of_owner? ((hs'.listed t c).mp (hperm.mem_iff.mpr hc))

/-! ## Ranks and order -/

/-- Changing the rank of a column of `t` concerns that column, the relationships that `t` exports,
and the numbers of its key. -/
theorem Mirrors.changeRank (h : Mirrors stray missing unordered unnumbered s) (hs : s.Sound)
    (hc : s.owner? c = some t) (old new : Option Nat) :
    Mirrors (fun r x => stray r x ∨ (x = c ∧ new = none))
      (fun r x => missing r x ∨ (x = c ∧ s.isKey c = false))
      (fun r => unordered r ∨ s.parent? r = some t) (fun t' => unnumbered t' ∨ t' = t)
      (s.changeRank c old new) := by
  have hre := reranks_changeRank c old new s
  have hrank := rank?_changeRank c old new s (contains_of_owner? hc)
  have hkey : ∀ x, x ≠ c → (s.changeRank c old new).isKey x = s.isKey x := by
    intro x hne
    refine isKey_congr ?_
    rw [hrank, if_neg hne]
  constructor
  case straight =>
    intro r m hl hm
    rw [mappingsOf_changeRank] at hm
    by_cases heq : m.pk = c
    -- the column itself is a stray once it has no rank
    · cases new with
      | none => exact .inr (.inr ⟨heq, rfl⟩)
      | some k => exact .inl (isKey_iff.mpr ⟨k, by rw [hrank, if_pos heq]⟩)
    · rw [hkey _ heq]
      exact (h.straight r m (hre.sameFrame.isLive r ▸ hl) hm).imp_right .inl
  case complete =>
    intro r p x hl hp ho hk
    rw [mappingsOf_changeRank]
    rw [hre.sameFrame.isLive] at hl
    rw [hre.sameFrame.parent?] at hp
    rw [hre.owner?] at ho
    by_cases heq : x = c
    -- and it is missing everywhere if it had none
    · subst heq
      cases hold : s.isKey x with
      | true => exact (h.complete r p x hl hp ho hold).imp_right .inl
      | false => exact .inr (.inr ⟨rfl, rfl⟩)
    · exact (h.complete r p x hl hp ho (hkey x heq ▸ hk)).imp_right .inl
  case ordered =>
    intro r hl
    rw [hre.sameFrame.isLive] at hl
    by_cases hp : s.parent? r = some t
    · exact .inr (.inr hp)
    · refine (h.ordered r hl).imp (fun ho => ho.congr (mappingsOf_changeRank ..) ?_) .inl
      intro m hm
      rw [mappingsOf_changeRank] at hm
      rw [hrank, if_neg]
      -- the parent columns of `r` belong to another table
      rintro rfl
      obtain ⟨p, ch, hp', -, hpk, -⟩ := hs.mapped r m hm
      rw [hc] at hpk
      exact hp (hp'.trans hpk.symm)
  case numbered =>
    intro t'
    by_cases heq : t' = t
    · exact .inr (.inr heq)
    · refine (h.numbered t').imp (fun hn => hn.congr (.of_eq (hre.columnsOf t')) fun x hx => ?_) .inl
      rw [hrank, if_neg]
      rintro rfl
      exact heq (Option.some.inj (((hs.listed t' x).mp hx).symm.trans hc))

/-- Numbering a key puts no live relationship out of order. -/
theorem InOrder.normalizeKey (h : s.InOrder r) (hs : s.Sound) (hl : s.isLive r = true) (t : TableId)
    (placed : Option ColumnId) : (s.normalizeKey t placed).InOrder r := by
  by_cases hp : s.parent? r = some t
  · exact inOrder_normalizeKey placed
      (mem_liveExportsOf.mp ((hs.mem_liveExportsOf_iff r t).mpr ⟨hl, hp⟩)).1
  -- the parent columns of `r` belong to another table
  · have hm := mappingsOf_normalizeKey_of_notMem placed fun hr => hp (hs.exported t r hr)
    refine h.congr hm fun m hm' => rank?_normalizeKey_of_not placed fun hpk => hp ?_
    rw [hm] at hm'
    obtain ⟨p, ch, hp', -, hown, -⟩ := hs.mapped r m hm'
    exact hp'.trans (hown.symm.trans ((hs.listed t m.pk).mp hpk.1))

/-- Numbering the key of `t` leaves it numbered and the relationships that `t` exports in order. -/
theorem Mirrors.normalizeKey (h : Mirrors stray missing unordered unnumbered s) (hs : s.Sound)
    (t : TableId) (placed : Option ColumnId) :
    Mirrors stray missing (fun r => unordered r ∧ s.parent? r ≠ some t)
      (fun t' => unnumbered t' ∧ t' ≠ t) (s.normalizeKey t placed) := by
  have hre := reranks_normalizeKey t placed s
  -- only the key columns of `t` get other ranks
  have hother : ∀ x, s.owner? x ≠ some t → (s.normalizeKey t placed).rank? x = s.rank? x :=
    fun x hx => rank?_normalizeKey_of_not placed fun h' => hx ((hs.listed t x).mp h'.1)
  constructor
  case straight =>
    intro r m hl hm
    rw [hs.isKey_normalizeKey]
    exact h.straight r m (hre.sameFrame.isLive r ▸ hl) ((hre.mappingsOf r).mem_iff.mp hm)
  case complete =>
    intro r p x hl hp ho hk
    rw [((hre.mappingsOf r).map Mapping.pk).mem_iff]
    rw [hs.isKey_normalizeKey] at hk
    exact h.complete r p x (hre.sameFrame.isLive r ▸ hl) (hre.sameFrame.parent? r ▸ hp)
      (hre.owner? x ▸ ho) hk
  case ordered =>
    intro r hl
    rw [hre.sameFrame.isLive] at hl
    by_cases hp : s.parent? r = some t
    · exact .inl (inOrder_normalizeKey placed
        (mem_liveExportsOf.mp ((hs.mem_liveExportsOf_iff r t).mpr ⟨hl, hp⟩)).1)
    · exact (h.ordered r hl).imp (fun ho => ho.normalizeKey hs hl t placed) fun ho => ⟨ho, hp⟩
  case numbered =>
    intro t'
    by_cases heq : t' = t
    · exact .inl (heq ▸ hs.numbered_normalizeKey t placed)
    · refine (h.numbered t').imp (fun hn => hn.congr (.of_eq (hre.columnsOf t')) fun x hx => ?_)
        fun hn => ⟨hn, heq⟩
      exact hother x fun ht => heq (Option.some.inj (((hs.listed t' x).mp hx).symm.trans ht))

/-- Ordering a relationship leaves it in order. -/
theorem Mirrors.syncMappingOrder (h : Mirrors stray missing unordered unnumbered s)
    (r : RelationshipId) :
    Mirrors stray missing (fun r' => unordered r' ∧ r' ≠ r) unnumbered (s.syncMappingOrder r) := by
  have hre := reranks_syncMappingOrder r s
  have hkey := isKey_syncMappingOrder r s
  constructor
  case straight =>
    intro r' m hl hm
    rw [hkey]
    exact h.straight r' m (hre.sameFrame.isLive r' ▸ hl) ((hre.mappingsOf r').mem_iff.mp hm)
  case complete =>
    intro r' p x hl hp ho hk
    rw [((hre.mappingsOf r').map Mapping.pk).mem_iff]
    exact h.complete r' p x (hre.sameFrame.isLive r' ▸ hl) (hre.sameFrame.parent? r' ▸ hp)
      (hre.owner? x ▸ ho) (hkey x ▸ hk)
  case ordered =>
    intro r' hl
    by_cases heq : r' = r
    · exact .inl (heq ▸ inOrder_syncMappingOrder r s)
    · exact (h.ordered r' (hre.sameFrame.isLive r' ▸ hl)).imp (fun ho => ho.syncMappingOrder r)
        fun ho => ⟨ho, heq⟩
  case numbered =>
    intro t
    exact (h.numbered t).imp_left fun hn =>
      hn.congr (.of_eq (hre.columnsOf t)) fun x _ => rank?_syncMappingOrder r s x

/-! ## Columns and mappings that come -/

/-- A new key column has no mappings and no number yet; one outside the key changes nothing. -/
theorem Mirrors.placeColumn (h : Mirrors stray missing unordered unnumbered s) (hs : s.Sound)
    (ht : s.tables.contains t = true) {i : Nat} (hi : i ≤ (s.columnsOf t).length) (col : Column) :
    Mirrors stray (fun r x => missing r x ∨ (x = s.nextColumn ∧ col.isKey = true)) unordered
      (fun t' => unnumbered t' ∨ (t' = t ∧ col.isKey = true)) (s.placeColumn t i col) := by
  have hf := sameFrame_placeColumn t i col s
  have hrank : ∀ x, s.columns.contains x = true → (s.placeColumn t i col).rank? x = s.rank? x := by
    intro x hx
    rw [rank?_placeColumn, if_neg (hs.ne_nextColumn hx)]
  have hkey : ∀ x, s.columns.contains x = true → (s.placeColumn t i col).isKey x = s.isKey x :=
    fun x hx => isKey_congr (hrank x hx)
  have hlisted : ∀ {t' x}, x ∈ s.columnsOf t' → s.columns.contains x = true := fun hx =>
    contains_of_owner? ((hs.listed _ _).mp hx)
  constructor
  case straight =>
    intro r m hl hm
    rw [mappingsOf_placeColumn] at hm
    rw [hkey _ (hs.pk_stored hm)]
    exact h.straight r m (hf.isLive r ▸ hl) hm
  case complete =>
    intro r p x hl hp ho hk
    rw [mappingsOf_placeColumn]
    by_cases heq : x = s.nextColumn
    · refine .inr (.inr ⟨heq, ?_⟩)
      unfold isKey at hk
      rwa [rank?_placeColumn, if_pos heq] at hk
    · rw [owner?_placeColumn, if_neg heq] at ho
      rw [hkey x (contains_of_owner? ho)] at hk
      exact (h.complete r p x (hf.isLive r ▸ hl) (hf.parent? r ▸ hp) ho hk).imp_right .inl
  case ordered =>
    intro r hl
    refine (h.ordered r (hf.isLive r ▸ hl)).imp_left fun ho =>
      ho.congr (mappingsOf_placeColumn ..) fun m hm => hrank _ ?_
    rw [mappingsOf_placeColumn] at hm
    exact hs.pk_stored hm
  case numbered =>
    intro t'
    by_cases heq : t' = t
    · subst heq
      cases hcol : col.isKey with
      | true => exact .inr (.inr ⟨rfl, rfl⟩)
      | false =>
          refine (h.numbered t').imp (fun hn => ?_) .inl
          -- a new column outside the key leaves the ranks as they are
          have hranks : ((s.placeColumn t' i col).keyRanks t').Perm (s.keyRanks t') := by
            have hnew : (s.placeColumn t' i col).rank? s.nextColumn = none := by
              rw [rank?_placeColumn, if_pos rfl]
              simpa [Column.isKey] using hcol
            unfold keyRanks
            rw [columnsOf_placeColumn ht, if_pos rfl]
            refine ((List.perm_insertIdx _ _ hi).filterMap _).trans (.of_eq ?_)
            rw [List.filterMap_cons, hnew]
            exact List.filterMap_congr fun x hx => by rw [hrank x (hlisted hx)]
          unfold Numbered at hn ⊢
          rw [hranks.length_eq]
          exact (hranks.map Prod.snd).trans hn
    · refine (h.numbered t').imp (fun hn => hn.congr (.of_eq ?_) fun x hx => hrank x (hlisted hx)) .inl
      rw [columnsOf_placeColumn ht, if_neg heq]

/-- A key column that gets a mapping is not missing any more, but its relationship has to be
ordered. -/
theorem Mirrors.appendMapping (h : Mirrors stray missing unordered unnumbered s)
    (hr : s.relationships.contains r = true) (hpk : s.isKey pk = true) (fk : ColumnId) :
    Mirrors stray (fun r' x => missing r' x ∧ ¬ (r' = r ∧ x = pk)) (fun r' => unordered r' ∨ r' = r)
      unnumbered (s.appendMapping r ⟨pk, fk⟩) := by
  have hf := sameFrame_appendMapping r ⟨pk, fk⟩ s
  have hrank := rank?_appendMapping r ⟨pk, fk⟩ s
  have hkey : ∀ x, (s.appendMapping r ⟨pk, fk⟩).isKey x = s.isKey x := fun x =>
    isKey_congr (hrank x)
  have hmap := mappingsOf_appendMapping hr (⟨pk, fk⟩ : Mapping)
  constructor
  case straight =>
    intro r' m hl hm
    rw [hf.isLive] at hl
    rw [hkey]
    rw [hmap] at hm
    split at hm
    · rename_i heq
      subst heq
      rcases List.mem_append.mp hm with hm | hm
      · exact h.straight r' m hl hm
      · obtain rfl := List.mem_singleton.mp hm
        exact .inl hpk
    · exact h.straight r' m hl hm
  case complete =>
    intro r' p x hl hp ho hk
    rw [owner?_appendMapping] at ho
    have hx := h.complete r' p x (hf.isLive r' ▸ hl) (hf.parent? r' ▸ hp) ho (hkey x ▸ hk)
    rw [hmap]
    by_cases heq : r' = r
    · subst heq
      rw [if_pos rfl, List.map_append, List.mem_append]
      by_cases hxpk : x = pk
      · exact .inl (.inr (by simp [hxpk]))
      · exact hx.imp .inl fun hmiss => ⟨hmiss, fun h' => hxpk h'.2⟩
    · rw [if_neg heq]
      exact hx.imp_right fun hmiss => ⟨hmiss, fun h' => heq h'.1⟩
  case ordered =>
    intro r' hl
    by_cases heq : r' = r
    · exact .inr (.inr heq)
    · refine (h.ordered r' (hf.isLive r' ▸ hl)).imp (fun ho => ho.congr ?_ fun m _ => hrank _) .inl
      rw [hmap, if_neg heq]
  case numbered =>
    intro t
    exact (h.numbered t).imp_left fun hn =>
      hn.congr (.of_eq (columnsOf_appendMapping ..)) fun x _ => hrank x

/-! ## Columns and mappings that go -/

theorem Sound.keyRanks_cut (hs : s.Sound) (hc : s.columns.contains c = true) (t : TableId) :
    (s.cut c).keyRanks t = (s.keyRanks t).filter fun e => decide (e.1 ≠ c) := by
  unfold keyRanks
  rw [hs.columnsOf_cut hc, List.filterMap_filter, List.filter_filterMap]
  refine List.filterMap_congr fun x _ => ?_
  rw [hs.rank?_cut hc]
  by_cases heq : x = c <;> cases s.rank? x <;> simp [heq, Option.filter_some]

/-- Cutting a column leaves no gap in a key that it is not in. -/
theorem Sound.numbered_cut (hs : s.Sound) (hc : s.columns.contains c = true) (hn : s.Numbered t)
    (hgap : ¬ (s.isKey c = true ∧ s.owner? c = some t)) : (s.cut c).Numbered t := by
  have hranks : (s.cut c).keyRanks t = s.keyRanks t := by
    rw [hs.keyRanks_cut hc, List.filter_eq_self]
    rintro ⟨x, k⟩ he
    obtain ⟨hx, hk⟩ := mem_keyRanks.mp he
    have hne : x ≠ c := by
      rintro rfl
      exact hgap ⟨isKey_iff.mpr ⟨k, hk⟩, (hs.listed t x).mp hx⟩
    simpa using hne
  unfold Numbered at hn ⊢
  rwa [hranks]

/-- Mappings stay in order when some are taken out. -/
theorem Unmaps.inOrder (hun : Unmaps s s') (h : s.InOrder r) : s'.InOrder r :=
  h.sublist (hun.mappingsOf r) fun m _ => hun.rank? m.pk

theorem InOrder.cut (h : s.InOrder r) (hs : s.Sound) (hc : s.columns.contains c = true) :
    (s.cut c).InOrder r := by
  refine h.sublist ?_ fun m hm => ?_
  · rw [hs.mappingsOf_cut hc]
    exact List.filter_sublist
  · rw [hs.rank?_cut hc, if_neg ((hs.mem_mappingsOf_cut hc).mp hm).2.1]

/-- Taking the mapping of a former key column out. -/
theorem Mirrors.removeMapping (h : Mirrors stray missing unordered unnumbered s) (hs : s.Sound)
    {i : Nat} {m : Mapping} (hi : (s.mappingsOf r).findIdx? (fun m => m.pk = pk) = some i)
    (hm : (s.mappingsOf r).find? (fun m => m.pk = pk) = some m) (hpk : s.isKey pk = false) :
    Mirrors (fun r' x => stray r' x ∧ ¬ (r' = r ∧ x = pk)) missing unordered unnumbered
      (s.removeMappingAt r m i) := by
  have hun := unmaps_removeMappingAt r m i s
  have hmpk : m.pk = pk := by simpa using List.find?_some hm
  constructor
  case straight =>
    intro r' m' hl hm'
    rw [hun.isKey]
    refine (h.straight r' m' (hun.sameFrame.isLive r' ▸ hl) ((hun.mappingsOf r').subset hm')).imp_right
      fun hstray => ⟨hstray, ?_⟩
    rintro ⟨rfl, heq⟩
    -- the mapping of `pk` was the only one, and it is gone
    obtain rfl := hs.pk_unique ((hun.mappingsOf r').subset hm') (List.mem_of_find?_eq_some hm)
      (heq.trans hmpk.symm)
    exact hs.notMem_removeMappingAt hi hm hm'
  case complete =>
    intro r' p x hl hp ho hk
    rw [hun.isKey] at hk
    rw [hun.owner?] at ho
    refine (h.complete r' p x (hun.sameFrame.isLive r' ▸ hl) (hun.sameFrame.parent? r' ▸ hp) ho
      hk).imp_left fun hx => ?_
    obtain ⟨m', hm', rfl⟩ := List.mem_map.mp hx
    rcases mem_removeMappingAt hi hm hm' with ⟨-, rfl⟩ | hin
    · rw [hmpk, hpk] at hk
      exact absurd hk Bool.noConfusion
    · exact List.mem_map_of_mem hin
  case ordered =>
    intro r' hl
    exact (h.ordered r' (hun.sameFrame.isLive r' ▸ hl)).imp_left hun.inOrder
  case numbered =>
    intro t
    exact (h.numbered t).imp_left fun hn =>
      hn.congr (.of_eq (hun.columnsOf t)) fun x _ => hun.rank? x

/-- Cutting a column that no live relationship maps leaves at most a gap in its key. -/
theorem Mirrors.cut (h : Mirrors stray missing unordered unnumbered s) (hs : s.Sound)
    (hc : s.columns.contains c = true) (hret : s.isRetained c = false) :
    Mirrors stray missing unordered
      (fun t => unnumbered t ∨ (s.isKey c = true ∧ s.owner? c = some t)) (s.cut c) := by
  have hf := sameFrame_cut c s
  have hrank : ∀ x, x ≠ c → (s.cut c).rank? x = s.rank? x := by
    intro x hne
    rw [hs.rank?_cut hc, if_neg hne]
  constructor
  case straight =>
    intro r m hl hm
    obtain ⟨hm, hpk, -⟩ := (hs.mem_mappingsOf_cut hc).mp hm
    rw [isKey_congr (hrank _ hpk)]
    exact h.straight r m (hf.isLive r ▸ hl) hm
  case complete =>
    intro r p x hl hp ho hk
    rw [hf.isLive] at hl
    rw [hs.isKey_cut hc, Bool.and_eq_true, Bool.not_eq_true', decide_eq_false_iff_not] at hk
    rw [hs.owner?_cut hc, if_neg hk.1] at ho
    refine (h.complete r p x hl (hf.parent? r ▸ hp) ho hk.2).imp_left fun hx => ?_
    obtain ⟨m, hm, rfl⟩ := List.mem_map.mp hx
    refine List.mem_map_of_mem ((hs.mem_mappingsOf_cut hc).mpr ⟨hm, hk.1, ?_⟩)
    -- no live relationship maps to the column that is cut
    rintro rfl
    rw [(hs.isRetained_iff _).mpr ⟨r, hl, m, hm, rfl⟩] at hret
    exact Bool.noConfusion hret
  case ordered =>
    intro r hl
    exact (h.ordered r (hf.isLive r ▸ hl)).imp_left fun ho => ho.cut hs hc
  case numbered =>
    intro t
    by_cases hgap : s.isKey c = true ∧ s.owner? c = some t
    · exact .inr (.inr hgap)
    · exact (h.numbered t).imp (fun hn => hs.numbered_cut hc hn hgap) .inl

end Schema

end KeyedSchema
