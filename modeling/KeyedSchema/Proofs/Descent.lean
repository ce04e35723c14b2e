import KeyedSchema.Proofs.Acyclicity
import KeyedSchema.Proofs.Bounds

/-!
# Descent — promotions run down an acyclic graph

A promotion in one table leads to promotions in the tables that its live identifying relationships
lead to, and mapping a column leads to one in the child. New columns are made on the way, so their
number bounds nothing; what bounds the nesting is that a walk along the links of an acyclic schema
meets no table twice. `Shallow` counts the tables that are left for a walk.

As in `Bounds`, an edit with an open `Beyond` on the left is compared with the standard on the right;
here the two agree on sound and acyclic schemas.
-/

namespace KeyedSchema

namespace Schema

open Relation

variable {s s₀ : Schema} {t : TableId}

/-! ## Walks are short -/

/-- Whether no walk along links that starts at the table visits more than `depth` tables. -/
def Shallow (s : Schema) : Nat → TableId → Prop
  | 0, _ => False
  | depth + 1, t => ∀ u, s.Feeds t u → s.Shallow depth u

/-- The tables above a table and those on a walk down from it are different ones. -/
theorem Sound.shallow_below (hs : s.Sound) (ha : s.Acyclic) (depth : Nat) :
    ∀ (above : List TableId) (t : TableId), above.Nodup →
      (∀ v ∈ above, s.tables.contains v = true ∧ TransGen s.Feeds v t) →
      s.tables.contains t = true → s.tables.size ≤ above.length + depth → s.Shallow depth t := by
  induction depth with
  | zero =>
      intro above t hnodup habove ht hsize
      -- with `t` there would be more tables than the schema has
      have hnew : t ∉ above := fun h => ha t (habove t h).2
      have hsub : t :: above ⊆ s.tables.keys := by
        intro v hv
        rw [Roster.mem_keys_iff]
        rcases List.mem_cons.mp hv with rfl | hv
        · exact ht
        · exact (habove v hv).1
      have hlen := (List.nodup_cons.mpr ⟨hnew, hnodup⟩).length_le_of_subset hsub
      rw [← Roster.size_eq_length_keys, List.length_cons] at hlen
      omega
  | succ depth ih =>
      intro above t hnodup habove ht hsize u hfeeds
      have hnew : t ∉ above := fun h => ha t (habove t h).2
      obtain ⟨r, hc⟩ := hfeeds
      refine ih (t :: above) u (List.nodup_cons.mpr ⟨hnew, hnodup⟩) ?_
        (hs.child_stored r u hc.child) ?_
      · intro v hv
        rcases List.mem_cons.mp hv with rfl | hv
        · exact ⟨ht, .single ⟨r, hc⟩⟩
        · exact ⟨(habove v hv).1, (habove v hv).2.tail ⟨r, hc⟩⟩
      · rw [List.length_cons]
        omega

/-- In an acyclic schema no walk visits more tables than there are. -/
theorem Sound.shallow (hs : s.Sound) (ha : s.Acyclic) (ht : s.tables.contains t = true)
    {depth : Nat} (hdepth : s.tables.size ≤ depth) : s.Shallow depth t :=
  hs.shallow_below ha depth [] t List.nodup_nil (by simp) ht (by simpa using hdepth)

theorem Sound.contains_table_of_owner (hs : s.Sound) {c : ColumnId} (h : s.owner? c = some t) :
    s.tables.contains t = true := by
  obtain ⟨tbl, htbl⟩ := hs.table_of_owner h
  exact Roster.contains_of_get? htbl

end Schema

/-! ## Rules for promotion -/

namespace Edit

open Schema

variable {s s₀ : Schema} {t p ch : TableId} {c pk : ColumnId} {r : RelationshipId} {depth : Nat}

/-- Whether two rules for promotion agree on columns of tables from which no walk visits more than
`depth` tables, in every sound schema that has the frame of `s₀`. -/
def Alike (promote promote' : ColumnId → Edit Unit) (depth : Nat) (s₀ : Schema) : Prop :=
  ∀ s c t, s.Sound → SameFrame s₀ s → s.owner? c = some t → s₀.Shallow depth t →
    Agrees (promote c) (promote' c) s

/-- Whether the child of a relationship, if it would be led to, is `Shallow`. -/
def Leads (s₀ : Schema) (r : RelationshipId) (depth : Nat) : Prop :=
  s₀.isIdentifying r = true → ∀ ch, s₀.child? r = some ch → s₀.Shallow depth ch

/-- A column that is gone is refused before anything is promoted. -/
theorem mapIfMissing_agrees_of_gone (hpk : s.columns.contains pk = false)
    (promote promote' : ColumnId → Edit Unit) :
    Agrees (mapIfMissing promote r pk) (mapIfMissing promote' r pk) s := by
  unfold mapIfMissing
  rw [agrees_bind, ends_relationship]
  refine ⟨fun rel _ => ?_, fun _ => trivial⟩
  split
  · refine Agrees.discard ?_
    unfold adoptOrCreate
    simp only [agrees_bind, ends_relationship, ends_require, ends_column]
    refine ⟨fun rel' _ => ⟨fun ch _ => ⟨fun col hcol => ?_, fun _ => trivial⟩, fun _ => trivial⟩,
      fun _ => trivial⟩
    rw [Roster.contains_of_get? hcol] at hpk
    exact Bool.noConfusion hpk
  · exact .refl _ _

section

variable {promote promote' : ColumnId → Edit Unit} (halike : Alike promote promote' depth s₀)

include halike

theorem adoptOrCreate_agrees (hs : s.Sound) (hf : SameFrame s₀ s)
    (hready : (Grow.map depth r pk).Ready s) (hnew : pk ∉ (s.mappingsOf r).map Mapping.pk)
    (hleads : Leads s₀ r depth) :
    Agrees (adoptOrCreate promote r pk) (adoptOrCreate promote' r pk) s := by
  obtain ⟨p, ch, hp, hch, hpk⟩ := hready
  obtain ⟨rel, hrel, hrelch⟩ := Option.bind_eq_some_iff.mp hch
  obtain ⟨key, hkey⟩ := (Roster.contains_iff _ _).mp (contains_of_owner? hpk)
  obtain ⟨tbl, htbl⟩ := (Roster.contains_iff _ _).mp (hs.child_stored r ch hch)
  have hid : s.isIdentifying r = rel.identifying := by simp [isIdentifying, hrel]
  obtain ⟨s₁, hm⟩ := hs.mapColumn hch hpk
  obtain ⟨hs', hg, hfk⟩ := hm.sound hs hp hch hpk hnew
  -- what is left to do once the mapping is there
  have hrest : ∀ fk s₂, s.mapColumn r pk = (fk, s₂) →
      Agrees
        (if rel.identifying = true then do
          promote fk
          syncMappingOrder r
          pure fk
        else do
          syncMappingOrder r
          pure fk)
        (if rel.identifying = true then do
          promote' fk
          syncMappingOrder r
          pure fk
        else do
          syncMappingOrder r
          pure fk) s₂ := by
    intro fk s₂ heq
    simp only [heq] at hs' hg hfk
    split
    · rename_i hi
      refine (halike s₂ fk ch hs' (hf.trans hg.frame) hfk (hleads ?_ ch ?_)).bind_left _
      · rw [← hf.isIdentifying, hid, hi]
      · rw [← hf.child?, hch]
    · exact .refl _ _
  unfold adoptOrCreate
  simp only [agrees_bind, ends_relationship_of hrel, hrelch, ends_require_some, ends_column_of hkey,
    ends_discard, ends_table_of htbl, ends_get]
  cases had : s.adoptable? rel ch pk key.name with
  | some fk =>
      simp only [agrees_bind, ends_pure, ends_change]
      exact hrest _ _ (by simp [Schema.mapColumn, hrel, hkey, hrelch, had])
  | none =>
      unfold placeColumn
      simp only [agrees_bind, ends_bind, ends_pure, ends_change, ends_ask, ends_discard,
        ends_table_of htbl]
      exact hrest _ _ (by simp [Schema.mapColumn, hrel, hkey, hrelch, had])

theorem mapIfMissing_agrees (hs : s.Sound) (hf : SameFrame s₀ s)
    (hready : (Grow.map depth r pk).Ready s) (hleads : Leads s₀ r depth) :
    Agrees (mapIfMissing promote r pk) (mapIfMissing promote' r pk) s := by
  unfold mapIfMissing
  rw [agrees_bind, ends_relationship]
  refine ⟨fun rel hrel => ?_, fun _ => trivial⟩
  split
  · rename_i hnone
    refine (adoptOrCreate_agrees halike hs hf hready ?_ hleads).discard
    simpa [Relationship.mappingOf?, mappingsOf, hrel] using hnone
  · exact .refl _ _

/-- Mapping several columns, each in a relationship of its own or in one for all. -/
theorem forM_mapIfMissing_agrees {β : Type} {bs : List β} {n : Nat} (hpromotes : Promotes promote' n s₀)
    (rel : β → RelationshipId) (key : β → ColumnId) (hs : s.Sound) (hf : SameFrame s₀ s)
    (hready : ∀ b ∈ bs, (Grow.map n (rel b) (key b)).Ready s)
    (hleads : ∀ b ∈ bs, Leads s₀ (rel b) depth) :
    Agrees (bs.forM fun b => mapIfMissing promote (rel b) (key b))
      (bs.forM fun b => mapIfMissing promote' (rel b) (key b)) s := by
  refine Agrees.forM (P := fun s₁ => s₁.Sound ∧ Grows s s₁) (fun b hb s₁ h₁ => ?_) ⟨hs, .refl s⟩
  obtain ⟨hs₁, hg₁⟩ := h₁
  have hf₁ := hf.trans hg₁.frame
  have hready₁ := hg₁.ready (hready b hb)
  constructor
  · exact mapIfMissing_agrees halike hs₁ hf₁ hready₁ (hleads b hb)
  · refine (mapIfMissing_worksOff hpromotes hs₁ hf₁ hready₁).total fun _ s₂ h₂ => ?_
    obtain ⟨hs₂, hg₂⟩ := hs₁.grow (by simpa using hready₁) h₂
    exact ⟨hs₂, hg₁.trans hg₂⟩

/-- What follows a new rank agrees if the rules do one table further down. -/
theorem afterRankChange_agrees {n : Nat} (hpromotes : Promotes promote' n s₀) (hs : s.Sound)
    (hf : SameFrame s₀ s) (hc : s.owner? c = some t) (hshallow : s₀.Shallow (depth + 1) t)
    (old new : Option Nat) :
    Agrees (afterRankChange promote c old new) (afterRankChange promote' c old new) s := by
  unfold afterRankChange
  rw [agrees_bind, ends_ownerOf_of hc, agrees_bind, ends_table]
  refine ⟨fun tbl _ => ?_, fun _ => trivial⟩
  split
  · have hre := reranks_normalizeKey t (new.map fun _ => c) s
    rw [agrees_bind, ends_normalizeKey_of hs (hs.contains_table_of_owner hc), agrees_bind, ends_ask]
    split
    · -- the column has joined the key: every relationship that the table exports maps it
      have hs₁ := hre.sound hs
      have hf₁ := hf.trans hre.sameFrame
      have hlive := fun r => (hs₁.mem_liveExportsOf_iff r t).mp
      refine forM_mapIfMissing_agrees (n := n) halike hpromotes id (fun _ => c) hs₁ hf₁ ?_ ?_
      · intro r hr
        obtain ⟨hl, hp⟩ := hlive r hr
        obtain ⟨-, ch, -, hch, -, -⟩ := isLive_iff.mp hl
        exact ⟨t, ch, hp, hch, (hre.owner? c).trans hc⟩
      · intro r hr hid ch hch
        obtain ⟨hl, hp⟩ := hlive r hr
        refine hshallow ch ⟨r, ?_, hid, ?_, hch⟩
        · rw [← hf₁.isLive, hl]
        · rw [← hf₁.parent?, hp]
    · exact .refl _ _
    · exact .refl _ _
  · exact .refl _ _

end

variable [Beyond]

/-- Promotions that may be nested as deep as walks visit tables stay within their bound. -/
theorem promoteWithin_alike (depth : Nat) (s₀ : Schema) : ∀ (depth' : Nat), depth ≤ depth' →
    Alike (promoteWithin depth') (@promoteWithin .standard depth) depth s₀ := by
  induction depth with
  | zero => exact fun _ _ _ _ _ _ _ _ h => h.elim
  | succ depth ih =>
      intro depth' hle s c t hs hf hc hshallow
      obtain ⟨depth', rfl⟩ := Nat.exists_eq_succ_of_ne_zero (Nat.ne_of_gt (Nat.lt_of_lt_of_le
        (Nat.succ_pos depth) hle))
      unfold promoteWithin
      rw [setRank_eq, agrees_bind, ends_column]
      refine ⟨fun col hcol => ?_, fun _ => trivial⟩
      split
      · obtain ⟨tbl, htbl⟩ := hs.table_of_owner hc
        rw [agrees_bind, ends_ownerOf_of hc, agrees_bind, ends_discard, ends_table_of htbl, agrees_bind,
          ends_ask]
        unfold setRank
        rw [agrees_bind, ends_column_of hcol]
        dsimp only
        split
        · rw [agrees_bind, ends_change]
          have hre := reranks_changeRank c col.rank (some (s.nextRank t)) s
          exact afterRankChange_agrees (ih depth' (Nat.le_of_succ_le_succ hle))
            (promoteWithin_worksOff depth s₀) (hre.sound hs) (hf.trans hre.sameFrame)
            ((hre.owner? c).trans hc) hshallow _ _
        · exact .refl _ _
      · exact .refl _ _

/-- As many nested promotions as there are tables. -/
theorem promote_alike (s₀ : Schema) :
    Alike promote (@promote .standard) s₀.tables.size s₀ := by
  intro s c t hs hf hc hshallow
  unfold promote
  rw [agrees_bind, ends_get, hf.size_tables]
  exact promoteWithin_alike _ s₀ _ (Nat.le_refl _) s c t hs hf hc hshallow

end Edit

end KeyedSchema
