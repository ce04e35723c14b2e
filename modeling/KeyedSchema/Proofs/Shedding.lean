import KeyedSchema.Proofs.Mirror
import KeyedSchema.Proofs.Orphans

/-!
# Shedding — what a cascade of removals leaves

Columns that go take mappings along and leave gaps in keys, which are then numbered anew. Whatever
the order in which all of this happens, what is left can be told from the schema before and from
which columns are left, and `Sheds` says so:

- columns keep their place and all they have but their ranks, and keys keep their order;
- a key that has lost a column is numbered, if its table cascades, and the relationships that the
  table exports are in order; everything else has its old ranks and its old order;
- mappings of columns outside the key are never reordered among each other.

Removing a relationship is such a cascade. Relationships that do not satisfy `stays` are left out of
account: these are the ones that are removed.
-/

namespace KeyedSchema

/-- A table without its columns and registrations. -/
def Table.bare (tbl : Table) : Table :=
  { tbl with columns := [], exportedKeys := [], importedKeys := [] }

namespace Schema

variable {s s' s'' s₀ : Schema} {t : TableId} {c : ColumnId} {r : RelationshipId}
  {stays : RelationshipId → Bool} {pending : TableId → Prop}

/-! ## What is not touched -/

/-- Whether two schemas differ at most in columns, in mappings and in relationships that do not
stay. -/
structure SameBut (stays : RelationshipId → Bool) (s s' : Schema) : Prop where
  tables : s'.tables.map Table.bare = s.tables.map Table.bare
  exportsOf : ∀ t, (s'.exportsOf t).filter stays = (s.exportsOf t).filter stays
  importsOf : ∀ t, (s'.importsOf t).filter stays = (s.importsOf t).filter stays
  relationshipKeys : s'.relationships.keys.filter stays = s.relationships.keys.filter stays
  frame : ∀ r, stays r = true → (s'.relationships.get? r).map Relationship.frame =
    (s.relationships.get? r).map Relationship.frame

namespace SameBut

@[refl] theorem refl (stays : RelationshipId → Bool) (s : Schema) : SameBut stays s s :=
  ⟨rfl, fun _ => rfl, fun _ => rfl, rfl, fun _ _ => rfl⟩

theorem trans (h : SameBut stays s s') (h' : SameBut stays s' s'') : SameBut stays s s'' :=
  ⟨h'.tables.trans h.tables, fun t => (h'.exportsOf t).trans (h.exportsOf t),
    fun t => (h'.importsOf t).trans (h.importsOf t), h'.relationshipKeys.trans h.relationshipKeys,
    fun r hr => (h'.frame r hr).trans (h.frame r hr)⟩

theorem cascades (h : SameBut stays s s') (t : TableId) : s'.cascades t = s.cascades t := by
  have hbare : ∀ o : Option Table, (o.map Table.bare).any Table.cascades = o.any Table.cascades :=
    fun o => by cases o <;> rfl
  have ht := congrArg (fun m => (Roster.get? m t).any Table.cascades) h.tables
  simpa only [Roster.get?_map, hbare, Schema.cascades] using ht

theorem mem_exportsOf (h : SameBut stays s s') (hr : stays r = true) :
    r ∈ s'.exportsOf t ↔ r ∈ s.exportsOf t := by
  have hmem : r ∈ (s'.exportsOf t).filter stays ↔ r ∈ (s.exportsOf t).filter stays := by
    rw [h.exportsOf]
  simpa [List.mem_filter, hr] using hmem

end SameBut

theorem SameFrame.sameBut (h : SameFrame s s') : SameBut stays s s' where
  tables := by
    have ht := congrArg (Roster.map Table.bare) h.tables
    simpa [Roster.map, Function.comp_def, Table.bare, Table.frame] using ht
  exportsOf t := by rw [h.exportsOf]
  importsOf t := by rw [h.importsOf]
  relationshipKeys := by rw [h.keys_relationships]
  frame r _ := h.get?_relationship r

theorem ne_of_stays {r' : RelationshipId} (hr : stays r = false) (hr' : stays r' = true) :
    r' ≠ r := by
  rintro rfl
  rw [hr] at hr'
  exact Bool.noConfusion hr'

/-- Leaving out a relationship that does not stay changes nothing among those that do. -/
theorem filter_stays {rs : List RelationshipId} (hr : stays r = false) :
    (rs.filter fun r' => decide (r' ≠ r)).filter stays = rs.filter stays := by
  rw [List.filter_filter]
  refine List.filter_congr fun r' _ => ?_
  by_cases h : r' = r <;> simp [h, hr]

theorem Reregisters.sameBut (h : Reregisters s s')
    (htables : s'.tables.map Table.bare = s.tables.map Table.bare)
    (hexp : ∀ t, (s'.exportsOf t).filter stays = (s.exportsOf t).filter stays)
    (himp : ∀ t, (s'.importsOf t).filter stays = (s.importsOf t).filter stays) :
    SameBut stays s s' :=
  ⟨htables, hexp, himp, by rw [h.relationships], fun r _ => by rw [h.relationships]⟩

theorem bare_changeTable {f : Table → Table} (h : SameObjects (s.changeTable t f) s')
    (hf : ∀ tbl, (f tbl).bare = tbl.bare) :
    s'.tables.map Table.bare = s.tables.map Table.bare := by
  rw [h.tables]
  exact Roster.map_modify _ _ _ _ hf

theorem Sound.sameBut_unlink (hs : s.Sound) (hr : stays r = false) :
    SameBut stays s (s.unlink r) := by
  have hs₁ := (hs.deregisters_exported r).sound hs
  -- one side after the other, and the mappings last
  have hexported : SameBut stays s (s.deregisterExported r) := by
    refine (reregisters_deregisterExported r s).sameBut ?_ (fun t => ?_) fun t => ?_
    · rcases deregisterExported_cases r s with ⟨h, -⟩ | ⟨t, i, -, h⟩
      · rw [h]
      · exact bare_changeTable h fun _ => rfl
    · rw [hs.exportsOf_deregisterExported, filter_stays hr]
    · rw [importsOf_deregisterExported]
  have himported : SameBut stays (s.deregisterExported r)
      ((s.deregisterExported r).deregisterImported r) := by
    refine (reregisters_deregisterImported r _).sameBut ?_ (fun t => ?_) fun t => ?_
    · rcases deregisterImported_cases r (s.deregisterExported r) with ⟨h, -⟩ | ⟨t, i, -, h⟩
      · rw [h]
      · exact bare_changeTable h fun _ => rfl
    · rw [exportsOf_deregisterImported]
    · rw [hs₁.importsOf_deregisterImported, filter_stays hr]
  exact (hexported.trans himported).trans (unmaps_clearMappings r _).sameFrame.sameBut

theorem sameBut_dropRelationship (hr : stays r = false) (s : Schema) :
    SameBut stays s (s.dropRelationship r) where
  tables := rfl
  exportsOf _ := rfl
  importsOf _ := rfl
  relationshipKeys := by
    rw [dropRelationship, Roster.keys_erase, filter_stays hr]
  frame r' hr' := by rw [get?_dropRelationship, if_neg (ne_of_stays hr hr')]

/-! ## Columns that are left -/

/-- Whether the second schema is the first one without some columns, ranks and everything but columns
aside. The columns that are left keep their order, also in their keys. -/
structure Narrows (s s' : Schema) : Prop where
  columnKeys : s'.columns.keys = s.columns.keys.filter s'.columns.contains
  unranked : ∀ c, s'.columns.contains c = true →
    (s'.columns.get? c).map Column.unranked = (s.columns.get? c).map Column.unranked
  columnsOf : ∀ t, s'.columnsOf t = (s.columnsOf t).filter s'.columns.contains
  isKey : ∀ c, s'.columns.contains c = true → s'.isKey c = s.isKey c
  primaryKey : ∀ t, s'.primaryKey t = (s.primaryKey t).filter s'.columns.contains

theorem Sound.contains_cut (hs : s.Sound) (hc : s.columns.contains c = true) (c' : ColumnId) :
    (s.cut c).columns.contains c' = (decide (c' ≠ c) && s.columns.contains c') := by
  rw [hs.columns_cut hc, Roster.contains_erase, decide_not]

theorem Sound.filter_contains_cut (hs : s.Sound) (hc : s.columns.contains c = true)
    (cs : List ColumnId) :
    (cs.filter s.columns.contains).filter (fun c' => decide (c' ≠ c)) =
      cs.filter (s.cut c).columns.contains := by
  rw [List.filter_filter]
  exact List.filter_congr fun c' _ => (hs.contains_cut hc c').symm

theorem Sound.primaryKey_cut (hs : s.Sound) (hc : s.columns.contains c = true) (t : TableId) :
    (s.cut c).primaryKey t = (s.primaryKey t).filter fun c' => decide (c' ≠ c) := by
  rw [primaryKey, primaryKey, hs.keyRanks_cut hc, ← filter_sortOn, List.filter_map]
  rfl

namespace Narrows

theorem refl (hs : s.Sound) : Narrows s s := by
  have hlisted : ∀ t c, c ∈ s.columnsOf t → s.columns.contains c = true := fun t c hc =>
    contains_of_owner? ((hs.listed t c).mp hc)
  constructor
  case columnKeys => exact (List.filter_eq_self.mpr fun c hc => (Roster.mem_keys_iff _ _).mp hc).symm
  case unranked => exact fun _ _ => rfl
  case columnsOf => exact fun t => (List.filter_eq_self.mpr fun c hc => hlisted t c hc).symm
  case isKey => exact fun _ _ => rfl
  case primaryKey =>
    exact fun t => (List.filter_eq_self.mpr fun c hc => hlisted t c (mem_primaryKey.mp hc).1).symm

theorem cut (h : Narrows s₀ s) (hs : s.Sound) (hc : s.columns.contains c = true) :
    Narrows s₀ (s.cut c) := by
  have hleft : ∀ {c'}, (s.cut c).columns.contains c' = true →
      c' ≠ c ∧ s.columns.contains c' = true := fun hc' => by
    rwa [hs.contains_cut hc, Bool.and_eq_true, decide_eq_true_eq] at hc'
  constructor
  case columnKeys =>
    rw [hs.columns_cut hc, Roster.keys_erase, h.columnKeys, ← hs.columns_cut hc,
      ← hs.filter_contains_cut hc]
  case unranked =>
    intro c' hc'
    obtain ⟨hne, hc'⟩ := hleft hc'
    rw [hs.columns_cut hc, Roster.get?_erase, if_neg hne]
    exact h.unranked c' hc'
  case columnsOf =>
    intro t
    rw [hs.columnsOf_cut hc, h.columnsOf, hs.filter_contains_cut hc]
  case isKey =>
    intro c' hc'
    obtain ⟨hne, hc'⟩ := hleft hc'
    rw [hs.isKey_cut hc, h.isKey c' hc']
    simp [hne]
  case primaryKey =>
    intro t
    rw [hs.primaryKey_cut hc, h.primaryKey, hs.filter_contains_cut hc]

/-- A change of ranks that keeps the keys as they are. -/
theorem reranks (h : Narrows s₀ s) (hre : Reranks s s') (hkey : ∀ c, s'.isKey c = s.isKey c)
    (hpk : ∀ t, s'.primaryKey t = s.primaryKey t) : Narrows s₀ s' := by
  have hc := funext hre.sameShape.contains_column
  refine ⟨?_, fun c hc' => ?_, fun t => ?_, fun c hc' => ?_, fun t => ?_⟩
  · rw [hre.sameShape.columnKeys, hc, h.columnKeys]
  · rw [← h.unranked c (hc ▸ hc'), ← Roster.get?_map, hre.columns, Roster.get?_map]
  · rw [hre.columnsOf, hc, h.columnsOf]
  · rw [hkey, h.isKey c (hc ▸ hc')]
  · rw [hpk, hc, h.primaryKey]

/-- A change that does not concern columns. -/
theorem of_columns (h : Narrows s₀ s) (hcols : s'.columns = s.columns)
    (hlists : ∀ t, s'.columnsOf t = s.columnsOf t) : Narrows s₀ s' := by
  have hrank : ∀ c, s'.rank? c = s.rank? c := fun c => by
    unfold rank?
    rw [hcols]
  refine ⟨?_, ?_, fun t => ?_, fun c hc => ?_, fun t => ?_⟩
  · rw [hcols, h.columnKeys]
  · rw [hcols]
    exact h.unranked
  · rw [hlists, hcols, h.columnsOf]
  · rw [isKey_congr (hrank c), h.isKey c (hcols ▸ hc)]
  · rw [primaryKey_congr (hlists t) fun c _ => hrank c, hcols, h.primaryKey]

end Narrows

/-! ## Keys that keep their order -/

/-- Numbering a key leaves all keys in the order they have. -/
theorem Sound.primaryKey_normalizeKey (hs : s.Sound) (t t' : TableId) :
    (s.normalizeKey t none).primaryKey t' = s.primaryKey t' := by
  have hre := reranks_normalizeKey t none s
  by_cases heq : t' = t
  · subst heq
    rw [(hs.numberedAs_normalizeKey t' none).primaryKey_eq (hre.sound hs), keyOrder_none]
    rfl
  · refine primaryKey_congr (hre.columnsOf t') fun c hc => rank?_normalizeKey_of_not none fun h => ?_
    exact heq (Option.some.inj (((hs.listed t' c).mp hc).symm.trans ((hs.listed t c).mp h.1)))

section

variable {others : Mapping → Bool}

/-- Ordering relationships leaves mappings of columns outside the key in the order they have. -/
theorem filter_syncAll (rs : List RelationshipId) (s : Schema)
    (h : ∀ m ∈ s.mappingsOf r, others m = true → s.isKey m.pk = false) :
    ((rs.foldl (fun s r => s.syncMappingOrder r) s).mappingsOf r).filter others =
      (s.mappingsOf r).filter others := by
  induction rs generalizing s with
  | nil => rfl
  | cons r' rs ih =>
      rw [List.foldl_cons, ih]
      · rw [mappingsOf_syncMappingOrder]
        split
        · rename_i heq
          subst heq
          -- they all tie, as the last ones of the order, and sorting is stable
          have htie : ∀ m ∈ s.mappingsOf r, others m = true → s.mappingRank m = lastRank := by
            intro m hm ho
            have hrank : s.rank? m.pk = none := by simpa [isKey] using h m hm ho
            rw [mappingRank, hrank, Option.getD_none]
          exact filter_sortOn_of_tie htie
        · rfl
      -- ordering changes no ranks, so they are outside the key for the rest of the fold as well
      · intro m hm
        rw [((reranks_syncMappingOrder r' s).mappingsOf r).mem_iff] at hm
        rw [isKey_syncMappingOrder]
        exact h m hm

theorem Sound.filter_normalizeKey (hs : s.Sound) (t : TableId)
    (h : ∀ m ∈ s.mappingsOf r, others m = true → s.isKey m.pk = false) :
    ((s.normalizeKey t none).mappingsOf r).filter others = (s.mappingsOf r).filter others := by
  have hmaps := mappingsOf_renumber 0 (s.keyOrder t none) s r
  rw [normalizeKey, filter_syncAll, hmaps]
  intro m hm ho
  rw [← isKey_congr (rank?_normalizeKey t none s m.pk), hs.isKey_normalizeKey]
  exact h m (hmaps ▸ hm) ho

end

/-! ## Ranks and the order of mappings -/

/-- Whether both columns of a mapping are there. -/
def joins (s : Schema) (m : Mapping) : Bool := s.columns.contains m.pk && s.columns.contains m.fk

/-- Whether the key of a table has lost a column and is to be numbered for it. -/
def Renumbers (s s' : Schema) (t : TableId) : Prop :=
  s.cascades t = true ∧ ∃ c ∈ s.primaryKey t, s'.columns.contains c = false

/-- Whether the second schema is what is left of the first one when columns go, the tables aside
whose numbering is pending. -/
structure Sheds (stays : RelationshipId → Bool) (pending : TableId → Prop) (s s' : Schema) :
    Prop where
  sameBut : SameBut stays s s'
  narrows : Narrows s s'
  mappings : ∀ r, stays r = true → (s'.mappingsOf r).Perm ((s.mappingsOf r).filter s'.joins)
  /-- Mappings of columns outside the key keep their order. -/
  others : ∀ r, stays r = true → (s'.mappingsOf r).filter (fun m => !s.isKey m.pk) =
    ((s.mappingsOf r).filter s'.joins).filter fun m => !s.isKey m.pk
  /-- Keys that are not to be numbered keep their ranks, gaps and all. -/
  rank? : ∀ t, ¬ Renumbers s s' t → ∀ c ∈ s'.columnsOf t, s'.rank? c = s.rank? c
  order : ∀ r, stays r = true → (∀ t, r ∈ s.exportsOf t → ¬ Renumbers s s' t) →
    s'.mappingsOf r = (s.mappingsOf r).filter s'.joins
  numbered : ∀ t, Renumbers s s' t → pending t ∨ s'.Numbered t
  ordered : ∀ t r, stays r = true → Renumbers s s' t → r ∈ s.exportsOf t →
    pending t ∨ s'.InOrder r

namespace Sheds

theorem mono {pending' : TableId → Prop} (h : Sheds stays pending s s')
    (hpending : ∀ t, Renumbers s s' t → pending t → pending' t) : Sheds stays pending' s s' :=
  { h with
    numbered := fun t ht => (h.numbered t ht).imp_left (hpending t ht)
    ordered := fun t r hr ht hexp => (h.ordered t r hr ht hexp).imp_left (hpending t ht) }

theorem refl (hs : s.Sound) : Sheds stays pending s s := by
  have hno : ∀ t, ¬ Renumbers s s t := by
    rintro t ⟨-, c, hc, hgone⟩
    rw [contains_of_owner? ((hs.listed t c).mp (mem_primaryKey.mp hc).1)] at hgone
    exact Bool.noConfusion hgone
  have hjoins : ∀ r, (s.mappingsOf r).filter s.joins = s.mappingsOf r := fun r => by
    rw [List.filter_eq_self]
    intro m hm
    rw [joins, hs.pk_stored hm, hs.fk_stored hm]
    rfl
  refine ⟨.refl stays s, .refl hs, fun r _ => ?_, fun r _ => ?_, fun _ _ _ _ => rfl, fun r _ _ => ?_,
    fun t ht => absurd ht (hno t), fun t _ _ ht => absurd ht (hno t)⟩ <;> rw [hjoins]

/-- A change that concerns no column and no relationship that stays. -/
theorem of_columns (h : Sheds stays pending s₀ s) (hrest : SameBut stays s s')
    (hcols : s'.columns = s.columns) (hlists : ∀ t, s'.columnsOf t = s.columnsOf t)
    (hmaps : ∀ r, stays r = true → s'.mappingsOf r = s.mappingsOf r) :
    Sheds stays pending s₀ s' := by
  have hrank : ∀ c, s'.rank? c = s.rank? c := fun c => by
    unfold Schema.rank?
    rw [hcols]
  have hjoins : s'.joins = s.joins := by
    funext m
    rw [joins, joins, hcols]
  have hren : ∀ t, Renumbers s₀ s' t ↔ Renumbers s₀ s t := fun t => by
    unfold Renumbers
    rw [hcols]
  constructor
  case sameBut => exact h.sameBut.trans hrest
  case narrows => exact h.narrows.of_columns hcols hlists
  case mappings =>
    intro r hr
    rw [hmaps r hr, hjoins]
    exact h.mappings r hr
  case others =>
    intro r hr
    rw [hmaps r hr, hjoins]
    exact h.others r hr
  case rank? =>
    intro t ht c hc
    rw [hrank]
    exact h.rank? t (ht ∘ (hren t).mpr) c (hlists t ▸ hc)
  case order =>
    intro r hr hexp
    rw [hmaps r hr, hjoins]
    exact h.order r hr fun t ht => hexp t ht ∘ (hren t).mpr
  case numbered =>
    intro t ht
    exact (h.numbered t ((hren t).mp ht)).imp_right fun hn =>
      hn.congr (.of_eq (hlists t)) fun c _ => hrank c
  case ordered =>
    intro t r hr ht hexp
    exact (h.ordered t r hr ((hren t).mp ht) hexp).imp_right fun ho =>
      ho.congr (hmaps r hr) fun m _ => hrank m.pk

/-- Cutting a column leaves its key to be numbered, if it is in one. -/
theorem cut (h : Sheds stays pending s₀ s) (hs : s.Sound) (hc : s.columns.contains c = true) :
    Sheds stays (fun t => pending t ∨ (s.isKey c = true ∧ s.owner? c = some t)) s₀ (s.cut c) := by
  have hjoins : ∀ ms : List Mapping,
      (ms.filter s.joins).filter (fun m => decide (m.pk ≠ c) && decide (m.fk ≠ c)) =
        ms.filter (s.cut c).joins := by
    intro ms
    rw [List.filter_filter]
    refine List.filter_congr fun m _ => ?_
    rw [joins, joins, hs.contains_cut hc, hs.contains_cut hc]
    ac_rfl
  have hren : ∀ t, Renumbers s₀ s t → Renumbers s₀ (s.cut c) t := by
    rintro t ⟨ht, x, hx, hgone⟩
    exact ⟨ht, x, hx, by rw [hs.contains_cut hc, hgone, Bool.and_false]⟩
  -- a key that is to be numbered only now has lost this very column
  have hnew : ∀ t, Renumbers s₀ (s.cut c) t →
      Renumbers s₀ s t ∨ (s.isKey c = true ∧ s.owner? c = some t) := by
    rintro t ⟨ht, x, hx, hgone⟩
    cases hxs : s.columns.contains x with
    | false => exact .inl ⟨ht, x, hx, hxs⟩
    | true =>
        rw [hs.contains_cut hc, hxs, Bool.and_true, decide_eq_false_iff_not, not_not] at hgone
        subst hgone
        have hmem : x ∈ s.primaryKey t := by
          rw [h.narrows.primaryKey, List.mem_filter]
          exact ⟨hx, hxs⟩
        obtain ⟨hl, hk⟩ := mem_primaryKey.mp hmem
        exact .inr ⟨hk, (hs.listed t x).mp hl⟩
  have hrank : ∀ x, x ≠ c → (s.cut c).rank? x = s.rank? x := fun x hne => by
    rw [hs.rank?_cut hc, if_neg hne]
  constructor
  case sameBut => exact h.sameBut.trans (sameFrame_cut c s).sameBut
  case narrows => exact h.narrows.cut hs hc
  case mappings =>
    intro r hr
    rw [hs.mappingsOf_cut hc, ← hjoins]
    exact (h.mappings r hr).filter _
  case others =>
    intro r hr
    rw [hs.mappingsOf_cut hc, ← hjoins, List.filter_comm, h.others r hr, List.filter_comm]
  case rank? =>
    intro t ht x hx
    rw [hs.columnsOf_cut hc, List.mem_filter, decide_eq_true_eq] at hx
    rw [hrank x hx.2]
    exact h.rank? t (ht ∘ hren t) x hx.1
  case order =>
    intro r hr hexp
    rw [hs.mappingsOf_cut hc, ← hjoins, h.order r hr fun t ht => hexp t ht ∘ hren t]
  case numbered =>
    intro t ht
    by_cases hgap : s.isKey c = true ∧ s.owner? c = some t
    · exact .inl (.inr hgap)
    · exact (h.numbered t ((hnew t ht).resolve_right hgap)).imp .inl
        fun hn => hs.numbered_cut hc hn hgap
  case ordered =>
    intro t r hr ht hexp
    by_cases hgap : s.isKey c = true ∧ s.owner? c = some t
    · exact .inl (.inr hgap)
    · refine (h.ordered t r hr ((hnew t ht).resolve_right hgap) hexp).imp .inl fun ho =>
        ho.sublist ?_ fun m hm => hrank _ ?_
      · rw [hs.mappingsOf_cut hc]
        exact List.filter_sublist
      · exact ((hs.mem_mappingsOf_cut hc).mp hm).2.1

/-- Numbering a key that has lost a column. -/
theorem normalizeKey (h : Sheds stays pending s₀ s) (hs : s.Sound) (ht : Renumbers s₀ s t) :
    Sheds stays (fun t' => pending t' ∧ t' ≠ t) s₀ (s.normalizeKey t none) := by
  have hre := reranks_normalizeKey t none s
  have hstored := hre.sameShape.contains_column
  have hjoins : (s.normalizeKey t none).joins = s.joins := by
    funext m
    rw [joins, joins, hstored, hstored]
  have hren : ∀ t', Renumbers s₀ (s.normalizeKey t none) t' ↔ Renumbers s₀ s t' := fun t' => by
    unfold Renumbers
    simp only [hstored]
  have hother : ∀ x, s.owner? x ≠ some t → (s.normalizeKey t none).rank? x = s.rank? x :=
    fun x hx => rank?_normalizeKey_of_not none fun h' => hx ((hs.listed t x).mp h'.1)
  constructor
  case sameBut => exact h.sameBut.trans hre.sameFrame.sameBut
  case narrows =>
    exact h.narrows.reranks hre (hs.isKey_normalizeKey t none) (hs.primaryKey_normalizeKey t)
  case mappings =>
    intro r hr
    rw [hjoins]
    exact (hre.mappingsOf r).trans (h.mappings r hr)
  case others =>
    intro r hr
    rw [hjoins, hs.filter_normalizeKey, h.others r hr]
    -- what is outside the key now has been so from the start
    intro m hm ho
    rw [h.narrows.isKey _ (hs.pk_stored hm)]
    simpa using ho
  case rank? =>
    intro t' ht' c hc
    rw [hre.columnsOf] at hc
    have hnot := ht' ∘ (hren t').mpr
    rw [hother c, h.rank? t' hnot c hc]
    rw [(hs.listed t' c).mp hc]
    rintro ⟨⟩
    exact hnot ht
  case order =>
    intro r hr hexp
    rw [hjoins, mappingsOf_normalizeKey_of_notMem,
      h.order r hr fun t' ht' => hexp t' ht' ∘ (hren t').mpr]
    exact fun hmem => hexp t ((h.sameBut.mem_exportsOf hr).mp hmem) ((hren t).mpr ht)
  case numbered =>
    intro t' ht'
    by_cases heq : t' = t
    · exact .inr (heq ▸ hs.numbered_normalizeKey t none)
    · refine (h.numbered t' ((hren t').mp ht')).imp (fun hp => ⟨hp, heq⟩) fun hn =>
        hn.congr (.of_eq (hre.columnsOf t')) fun x hx => hother x fun hx' => heq ?_
      exact Option.some.inj (((hs.listed t' x).mp hx).symm.trans hx')
  case ordered =>
    intro t' r hr ht' hexp
    have hmem := (h.sameBut.mem_exportsOf hr).mpr hexp
    by_cases heq : t' = t
    · exact .inr (inOrder_normalizeKey none (heq ▸ hmem))
    · -- a relationship is exported by one table only
      have hp := hs.exported t' r hmem
      have hnot : r ∉ s.exportsOf t := fun hmem' =>
        heq (Option.some.inj (hp.symm.trans (hs.exported t r hmem')))
      have hm := mappingsOf_normalizeKey_of_notMem none hnot
      refine (h.ordered t' r hr ((hren t').mp ht') hexp).imp (fun hpend => ⟨hpend, heq⟩) fun ho =>
        ho.congr hm fun m hm' => hother m.pk ?_
      rw [hs.pk_owner (hm ▸ hm') hp]
      exact fun hx => heq (Option.some.inj hx)

end Sheds

/-! ## Runs -/

/-- Whether a task may come up when columns go: a key that is to be numbered has lost a column. -/
def MayShed (s₀ s : Schema) : Prune → Prop
  | .check _ => True
  | .remove _ => True
  | .number t => ∃ c ∈ s₀.primaryKey t, s.columns.contains c = false
  | _ => False

theorem MayShed.narrows {task : Prune} (h : MayShed s₀ s task)
    (hstored : ∀ c, s'.columns.contains c = true → s.columns.contains c = true) :
    MayShed s₀ s' task := by
  cases task with
  | number t =>
      obtain ⟨c, hc, hgone⟩ := h
      exact ⟨c, hc, Bool.eq_false_iff.mpr fun hc' => Bool.eq_false_iff.mp hgone (hstored c hc')⟩
  | _ => exact h

theorem mem_afterCut_number : .number t ∈ Prune.afterCut s c ↔
    s.isKey c = true ∧ s.owner? c = some t := by
  unfold Prune.afterCut
  cases hk : s.isKey c <;> simp [eq_comm]

/-- How far a run of removals has come: the keys that have lost columns are numbered or still to be
numbered. -/
structure Shedding (stays : RelationshipId → Bool) (s₀ : Schema) (tasks : List Prune) (s : Schema) :
    Prop where
  sound : s.Sound
  sheds : Sheds stays (fun t => .number t ∈ tasks) s₀ s
  may : ∀ task ∈ tasks, MayShed s₀ s task

theorem Shedding.step {task : Prune} {tasks : List Prune}
    (h : Shedding stays s₀ (task :: tasks) s) :
    Shedding stays s₀ ((task.step s).1 ++ tasks) (task.step s).2 := by
  obtain ⟨hs', hsh⟩ := h.sound.prune_step task
  have hrest : ∀ task' ∈ tasks, MayShed s₀ (task.step s).2 task' := fun task' ht =>
    (h.may task' (List.mem_cons_of_mem _ ht)).narrows fun _ => hsh.contains
  have hmay := h.may task (List.mem_cons_self ..)
  cases task with
  | check c =>
      refine ⟨hs', h.sheds.mono fun t _ ht => ?_, fun task' ht => ?_⟩
      · exact List.mem_append_right _ (by simpa using ht)
      · rcases List.mem_append.mp ht with ht | ht
        · simp only [Prune.step] at ht
          split at ht
          · obtain rfl := List.mem_singleton.mp ht
            trivial
          · simp at ht
        · exact hrest task' ht
  | remove c =>
      cases hc : s.columns.contains c with
      | false =>
          rw [h.sound.step_remove_of_not_contains hc] at hrest ⊢
          exact ⟨h.sound, h.sheds.mono fun t _ ht => by simpa using ht, hrest⟩
      | true =>
          refine ⟨hs', (h.sheds.cut h.sound hc).mono fun t _ ht => ?_, fun task' ht => ?_⟩
          · rcases ht with ht | ht
            · exact List.mem_append_right _ (by simpa using ht)
            · exact List.mem_append_left _ (mem_afterCut_number.mpr ht)
          · rcases List.mem_append.mp ht with ht | ht
            · rcases h.sound.mem_afterCut ht with ⟨f, rfl, -⟩ | ⟨t, rfl⟩
              · trivial
              -- the key that is to be numbered has just lost the column
              · obtain ⟨hk, ho⟩ := mem_afterCut_number.mp ht
                have hmem := mem_primaryKey.mpr ⟨(h.sound.listed t c).mpr ho, hk⟩
                rw [h.sheds.narrows.primaryKey] at hmem
                refine ⟨c, (List.mem_filter.mp hmem).1, ?_⟩
                simp [Prune.step, h.sound.contains_cut hc]
            · exact hrest task' ht
  | number t =>
      have hcasc := h.sheds.sameBut.cascades t
      have hleft : ∀ t', .number t' ∈ Prune.number t :: tasks → t' ≠ t → .number t' ∈ tasks :=
        fun t' ht hne => (List.mem_cons.mp ht).resolve_left fun heq => hne (Prune.number.inj heq)
      refine ⟨hs', ?_, hrest⟩
      -- a table that does not cascade is not to be numbered at all
      simp only [Prune.step, List.nil_append]
      split
      · rename_i hx
        exact (h.sheds.normalizeKey h.sound ⟨hcasc.symm.trans hx, hmay⟩).mono
          fun t' _ ht => hleft t' ht.1 ht.2
      · rename_i hx
        refine h.sheds.mono fun t' hren ht => hleft t' ht ?_
        rintro rfl
        exact hx (hcasc.trans hren.1)
  | unmap => exact hmay.elim
  | demote => exact hmay.elim
  | loosen => exact hmay.elim
  | sweep => exact hmay.elim

/-- Removing columns that are no longer needed sheds them. -/
theorem Sheds.checks {fks : List ColumnId} (h : Sheds stays (fun _ => False) s₀ s) (hs : s.Sound)
    (hw : WorksOff Prune.step (fks.map .check) s s') : Sheds stays (fun _ => False) s₀ s' := by
  have hend := hw.invariant_all (J := Shedding stays s₀) (fun _ _ _ h => h.step)
    ⟨hs, h.mono fun _ _ => False.elim, fun task ht => ?_⟩
  · exact hend.sheds.mono fun t _ ht => by simp at ht
  · obtain ⟨fk, -, rfl⟩ := List.mem_map.mp ht
    trivial

/-- Removing a relationship that does not stay sheds the columns that go with it. -/
theorem Sheds.detaches (h : Sheds stays (fun _ => False) s₀ s) (hs : s.Sound)
    (hr : stays r = false) (hd : Detaches r s s') : Sheds stays (fun _ => False) s₀ s' := by
  obtain ⟨fks, s₁, -, hw, rfl⟩ := hd
  have hu := hs.unlinked r
  have hunlink := h.of_columns (hs.sameBut_unlink hr) hu.columns hu.columnsOf fun r' hr' => by
    rw [hu.mappingsOf, if_neg (ne_of_stays hr hr')]
  refine (hunlink.checks hu.sound hw).of_columns (sameBut_dropRelationship hr s₁) rfl (fun _ => rfl)
    fun r' hr' => ?_
  rw [mappingsOf_dropRelationship, if_neg (ne_of_stays hr hr')]

end Schema

end KeyedSchema
