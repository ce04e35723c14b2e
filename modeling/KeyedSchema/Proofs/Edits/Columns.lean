import KeyedSchema.Proofs.Edits.Attributes
import KeyedSchema.Proofs.Growing
import KeyedSchema.Proofs.Pruning

/-!
# Columns — edits of columns and keys

Each edit is atomic, and what it does is said by a relation: `Inserts` for a new column, `Places`
for a column that gets a rank, a run of `Prune` tasks for one that is removed or leaves the key,
`Moves` for one that goes to another place. Each of them keeps a schema sound.
-/

namespace KeyedSchema

namespace Schema

variable {s s' : Schema} {t : TableId} {c : ColumnId} {i k : Nat} {col : Column}

/-- Whether a new column comes into a table, and into its key if it has a rank. -/
structure Inserts (t : TableId) (i : Nat) (col : Column) (s s' : Schema) : Prop where
  table : s.tables.contains t = true
  index : i ≤ (s.columnsOf t).length
  worksOff : WorksOff Grow.step (if col.isKey then [.join s.tables.size s.nextColumn] else [])
    (s.placeColumn t i col) s'

theorem Inserts.sound (h : Inserts t i col s s') (hs : s.Sound) : s'.Sound := by
  refine ((hs.placeColumn h.table h.index col).grow (fun task htask => ?_) h.worksOff).1
  split at htask
  · obtain rfl := List.mem_singleton.mp htask
    simp [contains_placeColumn]
  · simp at htask

/-- Whether a column gets the rank `k`: it joins the key, or moves within it, or has that rank. -/
inductive Places (c : ColumnId) (k : Nat) (s : Schema) : Schema → Prop
  | joins {s' : Schema} (hrank : s.rank? c = none)
      (worksOff : WorksOff Grow.step [.join s.tables.size c] (s.changeRank c none (some k)) s') :
      Places c k s s'
  | moves {old : Nat} {t : TableId} (hrank : s.rank? c = some old) (howner : s.owner? c = some t) :
      Places c k s (if s.cascades t then (s.changeRank c (some old) (some k)).normalizeKey t (some c)
        else s.changeRank c (some old) (some k))
  | stays (hrank : s.rank? c = some k) : Places c k s s

theorem Places.sound (h : Places c k s s') (hs : s.Sound) (hc : s.columns.contains c = true) :
    s'.Sound := by
  cases h with
  | joins hrank hw =>
      have hre := reranks_changeRank c none (some k) s
      refine ((hre.sound hs).grow (fun task htask => ?_) hw).1
      obtain rfl := List.mem_singleton.mp htask
      exact (hre.sameShape.contains_column c).trans hc
  | @moves old t hrank howner =>
      have hre := reranks_changeRank c (some old) (some k) s
      split
      · exact (reranks_normalizeKey _ _ _).sound (hre.sound hs)
      · exact hre.sound hs
  | stays hrank => exact hs

/-- Whether a column goes to another place of its table; the key may be numbered afterwards. -/
def Moves (s s' : Schema) : Prop :=
  ∃ s₁, SameSkeleton s s₁ ∧ (s' = s₁ ∨ ∃ t, s' = s₁.normalizeKey t none)

theorem Moves.sound (h : Moves s s') (hs : s.Sound) : s'.Sound := by
  obtain ⟨s₁, h₁, rfl | ⟨t, rfl⟩⟩ := h
  · exact h₁.sound hs
  · exact (reranks_normalizeKey t none s₁).sound (h₁.sound hs)

/-- An unlocked column is the child side of no live mapping. -/
theorem Sound.not_isRetained_of_lock? (hs : s.Sound) (hc : s.owner? c = some t)
    (h : s.lock? t c = none) : s.isRetained c = false := by
  rw [Bool.eq_false_iff]
  intro hret
  obtain ⟨r, hl, m, hm, rfl⟩ := (hs.isRetained_iff c).mp hret
  obtain ⟨rel, hrel, hm'⟩ := mem_mappingsOf.mp hm
  obtain ⟨p, ch, hp, hch, -, himp⟩ := isLive_iff.mp hl
  obtain ⟨-, ch', -, hch', -, hfk⟩ := hs.mapped r m hm
  rw [hch] at hch'
  obtain rfl := Option.some.inj hch'
  rw [hc] at hfk
  obtain rfl := Option.some.inj hfk
  have := List.find?_eq_none.mp h r himp
  simp only [hl, hrel, Option.any_some, Bool.true_and, Bool.not_eq_true] at this
  rw [mapsTo_iff.mpr ⟨m, hm', rfl⟩] at this
  exact Bool.false_ne_true this.symm

end Schema

namespace Edit

open Schema

variable {s : Schema} {t : TableId} {c : ColumnId} {i k : Nat} {col : Column}

/-! ## New columns -/

theorem insertColumnAt_ends (hs : s.Sound) (ht : s.tables.contains t = true)
    (hi : i ≤ (s.columnsOf t).length) (col : Column) :
    (insertColumnAt t i col).Ends (fun c s' => c = s.nextColumn ∧ Inserts t i col s s')
      (fun _ _ => False) s := by
  obtain ⟨tbl, htbl⟩ := (Roster.contains_iff _ _).mp ht
  unfold insertColumnAt placeColumn
  simp only [ends_bind, ends_ask, ends_discard, ends_table_of htbl, ends_change, ends_pure]
  have hs₁ := hs.placeColumn ht hi col
  have hf := sameFrame_placeColumn t i col s
  cases hk : col.rank with
  | none =>
      have hkey : col.isKey = false := by simp [Column.isKey, hk]
      simp only [hkey, Bool.false_eq_true, if_false, ends_pure, true_and]
      exact ⟨ht, hi, by simpa [hkey] using WorksOff.done _⟩
  | some k =>
      have hkey : col.isKey = true := by simp [Column.isKey, hk]
      simp only [hkey, if_true, ends_bind, ends_pure, true_and]
      refine (afterRankChange_join_worksOff (promotes_promote s) hs₁ hf
        (by simp [contains_placeColumn]) k).imp fun _ s' h => ⟨ht, hi, ?_⟩
      simpa [hkey] using h

/-- Putting a column at a place within a stored table is never refused, and yields the column. -/
theorem insertColumn_ends (hs : s.Sound) (ht : s.tables.contains t = true)
    (hi : i ≤ (s.columnsOf t).length) (col : Column) :
    (insertColumn t i col).Ends (fun c s' => c = s.nextColumn ∧ AmidEvents (Inserts t i col) s s')
      (fun _ _ => False) s := by
  obtain ⟨tbl, htbl⟩ := (Roster.contains_iff _ _).mp ht
  have hlen : (s.columnsOf t).length = tbl.columns.length := by simp [columnsOf, htbl]
  unfold insertColumn
  simp only [ends_bind, ends_table_of htbl, if_neg (Nat.not_lt.mpr (hlen ▸ hi)), ends_ask]
  refine (ends_compoundIf_amid (R := fun c s₁ s₂ => c = s₁.nextColumn ∧ Inserts t i col s₁ s₂) _ _
    fun s₁ h₁ => insertColumnAt_ends (hs.of_sameObjects h₁) (h₁.tables ▸ ht)
      (by unfold columnsOf at hi ⊢; rwa [h₁.tables]) col).imp fun c s' h => ?_
  obtain ⟨s₁, s₂, h₁, ⟨hc, h⟩, h₂⟩ := h
  refine ⟨?_, s₁, s₂, h₁, h, h₂⟩
  rw [hc, nextColumn, h₁.lastColumn]
  rfl

theorem insertColumn_atomic (hs : s.Sound) (t : TableId) (i : Nat) (col : Column) :
    (insertColumn t i col).Atomic (fun _ s' => AmidEvents (Inserts t i col) s s') s := by
  cases ht : s.tables.get? t with
  | none =>
      unfold insertColumn Atomic
      simp only [ends_bind, ends_table]
      exact ⟨fun tbl htbl => absurd (ht.symm.trans htbl) (Option.some_ne_none tbl).symm,
        fun _ => .refl s⟩
  | some tbl =>
      have hlen : (s.columnsOf t).length = tbl.columns.length := by simp [columnsOf, ht]
      by_cases hi : i ≤ (s.columnsOf t).length
      · exact (insertColumn_ends hs (Roster.contains_of_get? ht) hi col).total fun _ _ h => h.2
      · unfold insertColumn Atomic
        simp only [ends_bind, ends_table_of ht, if_pos (Nat.lt_of_not_le (hlen ▸ hi))]
        exact Untouched.refl s

theorem addColumn_atomic (hs : s.Sound) (t : TableId) (col : Column) :
    (addColumn t col).Atomic (fun _ s' => ∃ i, AmidEvents (Inserts t i col) s s') s := by
  unfold addColumn Atomic
  simp only [ends_bind, ends_table]
  refine ⟨fun tbl htbl => ?_, fun _ => .refl s⟩
  exact (insertColumn_atomic hs t _ col).imp fun _ s' h => ⟨_, h⟩

/-! ## Columns that leave -/

theorem removeColumn_atomic (hs : s.Sound) (c : ColumnId) :
    (removeColumn c).Atomic (fun _ s' => s.columns.contains c = true ∧ s.isRetained c = false ∧
      AmidEvents (WorksOff Prune.step [.remove c]) s s') s := by
  unfold removeColumn Atomic
  simp only [ends_bind, ends_ownerOf, ends_discard, ends_table, ends_get]
  refine ⟨fun t ht => ⟨fun tbl htbl => ?_, fun _ => .refl s⟩, fun _ => .refl s⟩
  have hc := contains_of_owner? ht
  obtain ⟨col, hcol⟩ := (Roster.contains_iff _ _).mp hc
  cases hl : s.lock? t c with
  | some r => exact Untouched.refl s
  | none =>
      simp only [ends_bind, ends_column_of hcol]
      refine (ends_compoundIf_amid _ _ fun s₁ h₁ =>
        removeColumnCascade_worksOff (hs.of_sameObjects h₁) (h₁.columns ▸ hc)).total fun _ s' h => ?_
      exact ⟨hc, hs.not_isRetained_of_lock? ht hl, h⟩

/-! ## Keys -/

/-- Giving a stored column a rank never fails. -/
theorem setRank_some_ends (hs : s.Sound) (hc : s.columns.contains c = true) (k : Nat) :
    (setRank promote c (some k)).Ends (fun _ s' => Places c k s s') (fun _ _ => False) s := by
  obtain ⟨col, hcol⟩ := (Roster.contains_iff _ _).mp hc
  obtain ⟨t, ht⟩ := hs.owned c hc
  obtain ⟨tbl, htbl⟩ := hs.table_of_owner ht
  have hrank : s.rank? c = col.rank := rank?_of_get? hcol
  have hcasc : s.cascades t = tbl.cascades := by simp [cascades, htbl]
  unfold setRank
  simp only [ends_bind, ends_column_of hcol]
  cases hk : col.rank with
  | none =>
      simp only [ne_eq, reduceCtorEq, not_false_eq_true, if_true, ends_bind, ends_change]
      have hre := reranks_changeRank c none (some k) s
      refine (afterRankChange_join_worksOff (promotes_promote s) (hre.sound hs) hre.sameFrame
        ((hre.sameShape.contains_column c).trans hc) k).imp fun _ s' h => ?_
      exact .joins (hrank.trans hk) h
  | some old =>
      by_cases heq : old = k
      · subst heq
        simp only [ne_eq, not_true_eq_false, if_false, ends_pure]
        exact .stays (hrank.trans hk)
      · have hne : some old ≠ some k := fun h => heq (Option.some.inj h)
        have hre := reranks_changeRank c (some old) (some k) s
        have ht₁ := (hre.owner? c).trans ht
        have htbl₁ : (s.changeRank c (some old) (some k)).tables.get? t = some tbl :=
          hre.tables ▸ htbl
        have hplaces := Places.moves (k := k) (hrank.trans hk) ht
        rw [hcasc] at hplaces
        simp only [hne, ne_eq, not_false_eq_true, if_true, ends_bind, ends_change]
        unfold afterRankChange
        simp only [ends_bind, ends_ownerOf_of ht₁, ends_table_of htbl₁]
        cases hx : tbl.cascades with
        | false => simpa [hx] using hplaces
        | true =>
            simp only [if_true, ends_bind, Option.map_some,
              ends_normalizeKey_of (hre.sound hs) (Roster.contains_of_get? htbl₁)]
            simpa [hx] using hplaces

/-- Taking a stored column out of its key is never refused. -/
theorem setPrimaryKeySeq_none_ends (hs : s.Sound) (hc : s.columns.contains c = true) :
    (setPrimaryKeySeq c none).Ends (fun _ s' => AmidEvents (WorksOff Prune.step [.demote c]) s s')
      (fun _ _ => False) s := by
  rcases hs.owned c hc with ⟨t, ht⟩
  rcases (Roster.contains_iff _ _).mp hc with ⟨col, hcol⟩
  unfold setPrimaryKeySeq
  simp only [ends_bind, ends_ownerOf_of ht, ends_ask, ends_column_of hcol]
  exact ends_compoundIf_amid _ _ fun s₁ h₁ => setRank_none_worksOff promote
    (hs.of_sameObjects h₁) (h₁.columns ▸ hc)

/-- A column that is not stored gets no rank. -/
theorem setPrimaryKeySeq_unknown (hc : s.columns.contains c = false) (rank : Option Nat) :
    (setPrimaryKeySeq c rank).Ends (fun _ _ => False) (fun _ s' => s.Untouched s') s := by
  unfold setPrimaryKeySeq
  simp only [ends_bind, ends_ownerOf]
  refine ⟨fun t ht => ?_, fun _ => .refl s⟩
  exact absurd (hc.symm.trans (contains_of_owner? ht)) Bool.noConfusion

theorem setPrimaryKeySeq_none_atomic (hs : s.Sound) (c : ColumnId) :
    (setPrimaryKeySeq c none).Atomic (fun _ s' => s.columns.contains c = true ∧
      AmidEvents (WorksOff Prune.step [.demote c]) s s') s := by
  cases hc : s.columns.contains c with
  | true => exact (setPrimaryKeySeq_none_ends hs hc).total fun _ _ h => ⟨rfl, h⟩
  | false => exact (setPrimaryKeySeq_unknown hc _).imp fun _ _ h => h.elim

/-- Giving a stored column a rank is never refused. -/
theorem setPrimaryKeySeq_some_ends (hs : s.Sound) (hc : s.columns.contains c = true) (k : Nat) :
    (setPrimaryKeySeq c (some k)).Ends (fun _ s' => AmidEvents (Places c k) s s')
      (fun _ _ => False) s := by
  rcases hs.owned c hc with ⟨t, ht⟩
  rcases (Roster.contains_iff _ _).mp hc with ⟨col, hcol⟩
  unfold setPrimaryKeySeq
  simp only [ends_bind, ends_ownerOf_of ht, ends_ask, ends_column_of hcol]
  exact ends_compoundIf_amid _ _ fun s₁ h₁ => setRank_some_ends (hs.of_sameObjects h₁)
    (h₁.columns ▸ hc) k

theorem setPrimaryKeySeq_some_atomic (hs : s.Sound) (c : ColumnId) (k : Nat) :
    (setPrimaryKeySeq c (some k)).Atomic (fun _ s' => s.columns.contains c = true ∧
      AmidEvents (Places c k) s s') s := by
  cases hc : s.columns.contains c with
  | true => exact (setPrimaryKeySeq_some_ends hs hc k).total fun _ _ h => ⟨rfl, h⟩
  | false => exact (setPrimaryKeySeq_unknown hc _).imp fun _ _ h => h.elim

theorem normalizePrimaryKey_atomic (hs : s.Sound) (t : TableId) :
    (normalizePrimaryKey t).Atomic (fun _ s' => s' = s.normalizeKey t none) s := by
  unfold normalizePrimaryKey Atomic
  simp only [ends_bind, ends_discard, ends_table]
  refine ⟨fun tbl htbl => ?_, fun _ => .refl s⟩
  rw [ends_normalizeKey_of hs (Roster.contains_of_get? htbl)]

/-! ## The place of a column -/

/-- Taking an element out and putting it back elsewhere only rearranges a list. -/
theorem insertIdx_eraseIdx_perm {α : Type} {xs : List α} {x : α} {i j : Nat} (hi : xs[i]? = some x)
    (hj : j < xs.length) : ((xs.eraseIdx i).insertIdx j x).Perm xs := by
  obtain ⟨hlt, rfl⟩ := List.getElem?_eq_some_iff.mp hi
  have hlen := List.length_eraseIdx_of_lt hlt
  exact (List.perm_insertIdx _ _ (by omega)).trans (List.getElem_cons_eraseIdx_perm hlt)

/-- Moving a column within its table keeps the skeleton. -/
theorem sameSkeleton_move {tbl : Table} {index : Nat} (htbl : s.tables.get? t = some tbl)
    (hi : tbl.columns[i]? = some c) (hindex : index < tbl.columns.length) (e e' : Event) :
    SameSkeleton s (((((s.changeTable t fun tbl =>
        { tbl with columns := tbl.columns.eraseIdx i }).raise e).changeTable t fun tbl =>
        { tbl with columns := tbl.columns.insertIdx index c })).raise e') := by
  -- both changes of the table as one
  have h : SameSkeleton s (s.changeTable t fun tbl =>
      { tbl with columns := (tbl.columns.eraseIdx i).insertIdx index c }) := by
    refine sameSkeleton_changeTable t s (fun tbl' htbl' => ?_) (fun _ => rfl) (fun _ => rfl)
      fun _ => rfl
    rw [htbl] at htbl'
    obtain rfl := Option.some.inj htbl'
    exact insertIdx_eraseIdx_perm hi hindex
  refine h.trans (SameObjects.sameSkeleton (.trans ?_ (.raise _ _)))
  constructor <;> simp [changeTable, Roster.modify_modify, Function.comp_def]

theorem moveColumn_atomic (hs : s.Sound) (c : ColumnId) (index : Nat) :
    (moveColumn c index).Atomic (fun _ s' => Moves s s') s := by
  unfold moveColumn Atomic
  simp only [ends_bind, ends_ownerOf, ends_table]
  refine ⟨fun t ht => ⟨fun tbl htbl => ?_, fun _ => .refl s⟩, fun _ => .refl s⟩
  split
  · exact Untouched.refl s
  · rename_i hindex
    obtain ⟨i, hi⟩ := hs.idxOf?_of_owner ht
    have hi : tbl.columns.idxOf? c = some i := by simpa [columnsOf, htbl] using hi
    have hget : tbl.columns[i]? = some c := by
      obtain ⟨hlt, heq, -⟩ := List.idxOf?_eq_some_iff.mp hi
      exact List.getElem?_eq_some_iff.mpr ⟨hlt, heq⟩
    have hmove := sameSkeleton_move htbl hget (Nat.lt_of_not_le hindex)
      (.childRemoved (.table t) (.column c) i) (.childInserted (.table t) (.column c) index)
    simp only [ends_bind, hi, ends_require_some, ends_change, ends_raise]
    -- from here on only the skeleton of the moved schema matters
    generalize Schema.raise _ _ = s₁ at hmove ⊢
    obtain ⟨col, hcol⟩ := (Roster.contains_iff _ _).mp
      ((hmove.shape.contains_column c).trans (contains_of_owner? ht))
    obtain ⟨tbl₁, htbl₁⟩ := (Roster.contains_iff _ _).mp
      ((hmove.shape.contains_table t).trans (Roster.contains_of_get? htbl))
    simp only [ends_column_of hcol]
    split
    · simp only [ends_bind, ends_table_of htbl₁]
      split
      · rw [ends_normalizeKey_of (hmove.sound hs) (Roster.contains_of_get? htbl₁)]
        exact ⟨s₁, hmove, .inr ⟨t, rfl⟩⟩
      · exact ⟨s₁, hmove, .inl rfl⟩
    · exact ⟨s₁, hmove, .inl rfl⟩

end Edit

end KeyedSchema
