import KeyedSchema.Proofs.Effects

/-!
# Backlog — events that are held back

While a table is in secondary-change mode its events wait. Nothing that was raised gets lost in the
meantime: what is published and what is waiting make up, event for event, what was raised. And
waiting does not put the events of one table out of order, since all of them wait in one line: what
is published of a table, followed by what is waiting, is what was raised of it, in its order.

Events wait only for tables that are in the mode. A table leaves it before it goes, so it takes no
event along.
-/

open scoped List

namespace KeyedSchema

/-! ## Rosters of lists -/

namespace Roster

variable {κ α : Type} [DecidableEq κ]

/-- What is given to a key before it is erased does not matter. -/
theorem erase_insert (m : Roster κ α) (k : κ) (a : α) : (m.insert k a).erase k = m.erase k := by
  unfold insert
  split
  · exact erase_modify m k _
  · simp [erase]

/-- All elements of the lists in a roster. -/
def flatten (m : Roster κ (List α)) : List α := m.entries.flatMap Prod.snd

/-- The elements of one list, and those of all others. -/
theorem perm_flatten {m : Roster κ (List α)} (h : m.keys.Nodup) (k : κ) :
    m.flatten.Perm ((m.get? k).getD [] ++ (m.erase k).flatten) := by
  unfold flatten get? erase
  unfold keys at h
  generalize m.entries = es at h
  -- by induction on the entries: the list of `k` moves in front of the entries before it
  induction es with
  | nil => exact .nil
  | cons e es ih =>
      obtain ⟨k₀, as⟩ := e
      obtain ⟨hk₀, hes⟩ := List.nodup_cons.mp h
      by_cases hk : k₀ = k
      · subst hk
        -- no later entry has the key
        have hothers : es.filter (fun e => e.1 ≠ k₀) = es := by
          exact List.filter_eq_self.mpr fun e he => decide_eq_true fun hek =>
            hk₀ (List.mem_map.mpr ⟨e, he, hek⟩)
        rw [List.filter_cons_of_neg (by simp), hothers]
        simp [find]
      · rw [List.filter_cons_of_pos (by simp [hk])]
        simp only [find, hk, if_false, List.flatMap_cons]
        calc as ++ es.flatMap Prod.snd
          _ ~ as ++ ((find k es).getD [] ++ (es.filter fun e => e.1 ≠ k).flatMap Prod.snd) :=
              (ih hes).append_left as
          _ ~ (find k es).getD [] ++ (as ++ (es.filter fun e => e.1 ≠ k).flatMap Prod.snd) := by
              rw [← List.append_assoc, ← List.append_assoc]
              exact List.perm_append_comm.append_right _

/-- One more element at the end of one list. -/
theorem perm_flatten_insert {m : Roster κ (List α)} (h : m.keys.Nodup) (k : κ) (a : α) :
    (m.insert k ((m.get? k).getD [] ++ [a])).flatten.Perm (m.flatten ++ [a]) := by
  have hins := perm_flatten (nodup_keys_insert h k ((m.get? k).getD [] ++ [a])) k
  rw [get?_insert, if_pos rfl, Option.getD_some, erase_insert] at hins
  calc (m.insert k ((m.get? k).getD [] ++ [a])).flatten
    _ ~ (m.get? k).getD [] ++ [a] ++ (m.erase k).flatten := hins
    _ ~ (m.get? k).getD [] ++ (m.erase k).flatten ++ [a] := by
        rw [List.append_assoc, List.append_assoc]
        exact List.perm_append_comm.append_left _
    _ ~ m.flatten ++ [a] := (perm_flatten h k).symm.append_right _

theorem flatten_eq_nil {m : Roster κ (List α)} (h : m.keys.Nodup)
    (hempty : ∀ k, (m.get? k).getD [] = []) : m.flatten = [] := by
  refine List.flatMap_eq_nil_iff.mpr fun e he => ?_
  have := hempty e.1
  rwa [(get?_eq_some_iff h e.1 e.2).mpr he] at this

end Roster

namespace Schema

variable {s s' s'' : Schema} {t t' : TableId} {c : ColumnId} {e : Event} {es : List Event}

/-! ## Events of a table -/

/-- The table that a column was put into. It stays there as long as there is the column. -/
def home? (s : Schema) (c : ColumnId) : Option TableId := (s.origins.get? c).bind Column.table

/-- Whether an event comes from the table or from one of its columns. -/
def isOfTable (s : Schema) (t : TableId) (e : Event) : Bool :=
  match e.source? with
  | some (.table t') => t' = t
  | some (.column c) => s.home? c = some t
  | _ => false

/-- Whether an event comes from the table, from one of its columns, or tells that the table comes or
goes. -/
def concerns (s : Schema) (t : TableId) (e : Event) : Bool := s.isOfTable t e || e.about? = some t

/-- What an event that concerns a table may come from. -/
theorem concerns_iff : s.concerns t e = true ↔ e.source? = some (.table t) ∨
    (∃ c, e.source? = some (.column c) ∧ s.home? c = some t) ∨
    (e.source? = some .schema ∧ e.about? = some t) := by
  unfold concerns isOfTable Event.about? Event.source?
  cases e with
  | childInserted source child i | childRemoved source child i =>
      cases source <;> cases child <;> simp
  | propertyChanged source property old new => cases source <;> simp
  | structureChanged source => cases source <;> simp
  | compoundEditStarted description => simp
  | compoundEditEnded => simp

theorem concerns_congr (h : s'.origins = s.origins) : s'.concerns t e = s.concerns t e := by
  unfold concerns isOfTable home?
  rw [h]

theorem tableOf?_of_table (h : e.source? = some (.table t)) (s : Schema) : s.tableOf? e = some t := by
  simp [tableOf?, h]

/-! ## What is waiting -/

theorem isHolding_iff : s.isHolding t = true ↔
    ∃ tbl, s.tables.get? t = some tbl ∧ tbl.inSecondaryChange = true := by
  unfold isHolding
  cases s.tables.get? t <;> simp

/-- An event joins the line of one table. -/
theorem heldFor_of_insert (h : s'.held = s.held.insert t es) (t' : TableId) :
    s'.heldFor t' = if t' = t then es else s.heldFor t' := by
  unfold heldFor
  rw [h, Roster.get?_insert]
  split <;> rfl

/-- The line of one table is cleared. -/
theorem heldFor_of_erase (h : s'.held = s.held.erase t) (t' : TableId) :
    s'.heldFor t' = if t' = t then [] else s.heldFor t' := by
  unfold heldFor
  rw [h, Roster.get?_erase]
  split <;> rfl

/-- A table that is changed may keep the mode. -/
theorem isHolding_of_modify {f : Table → Table} (htables : s'.tables = s.tables.modify t' f)
    (hmode : ∀ tbl, s.tables.get? t' = some tbl → tbl.inSecondaryChange = true →
      (f tbl).inSecondaryChange = true) (ht : s.isHolding t = true) : s'.isHolding t = true := by
  obtain ⟨tbl, htbl, hon⟩ := isHolding_iff.mp ht
  rw [isHolding, htables, Roster.get?_modify, htbl]
  split
  · rename_i heq
    exact hmode tbl (heq ▸ htbl) hon
  · exact hon

/-- A new table is none that is in the mode. -/
theorem isHolding_of_insert (hs : s.Tidy) {tbl : Table}
    (htables : s'.tables = s.tables.insert ⟨s.lastTable + 1⟩ tbl) (ht : s.isHolding t = true) :
    s'.isHolding t = true := by
  have hne : t ≠ ⟨s.lastTable + 1⟩ := by
    rintro rfl
    obtain ⟨tbl, htbl, -⟩ := isHolding_iff.mp ht
    exact Nat.not_succ_le_self _ (hs.table_fresh _ (Roster.contains_of_get? htbl))
  unfold isHolding at ht ⊢
  rwa [htables, Roster.get?_insert, if_neg hne]

/-- A table that is not in the mode may be taken out. -/
theorem isHolding_of_erase (htables : s'.tables = s.tables.erase t') (hmode : s.isHolding t' = false)
    (ht : s.isHolding t = true) : s'.isHolding t = true := by
  have hne : t ≠ t' := by
    rintro rfl
    exact Bool.noConfusion (ht.symm.trans hmode)
  unfold isHolding at ht ⊢
  rwa [htables, Roster.get?_erase, if_neg hne]

/-- All events that are held back. -/
def heldEvents (s : Schema) : List Event := s.held.flatten

/-- Whether what is published and what is waiting make up what was raised. -/
structure Owes (s : Schema) : Prop where
  held_nodup : s.held.keys.Nodup
  /-- Events wait only for tables in secondary-change mode. -/
  holding : ∀ t, s.heldFor t ≠ [] → s.isHolding t = true
  total : s.raised.Perm (s.published ++ s.heldEvents)
  schema : s.published.filter Event.isOfSchema = s.raised.filter Event.isOfSchema
  table : ∀ t, (s.published ++ s.heldFor t).filter (s.concerns t) = s.raised.filter (s.concerns t)
  /-- What waits for a table concerns no other one. -/
  own : ∀ t, ∀ e ∈ s.heldFor t, e.isOfSchema = false ∧ ∀ t', s.concerns t' e = true → t' = t

namespace Owes

theorem ofConfig (config : Config) : (ofConfig config).Owes :=
  ⟨.nil, fun _ h => absurd rfl h, .refl [], rfl, fun _ => rfl, fun _ _ he => nomatch he⟩

theorem heldFor_eq_nil (h : s.Owes) (ht : s.isHolding t = false) : s.heldFor t = [] := by
  by_contra hheld
  exact Bool.noConfusion (ht.symm.trans (h.holding t hheld))

/-- Nothing waits where no table is in the mode. -/
theorem published_perm (h : s.Owes) (hmode : ∀ t, s.isHolding t = false) :
    s.published.Perm s.raised := by
  have hnone : s.heldEvents = [] :=
    Roster.flatten_eq_nil h.held_nodup fun t => h.heldFor_eq_nil (hmode t)
  have htotal := h.total
  rw [hnone, List.append_nil] at htotal
  exact htotal.symm

/-- Each table's events come in their order where no table is in the mode. -/
theorem published_order (h : s.Owes) (hmode : ∀ t, s.isHolding t = false) (t : TableId) :
    s.published.filter (s.concerns t) = s.raised.filter (s.concerns t) := by
  have htable := h.table t
  rwa [h.heldFor_eq_nil (hmode t), List.append_nil] at htable

/-- It matters only what was told, and which tables are in the mode. -/
theorem congr (h : s.Owes) (hheld : s'.held = s.held) (hraised : s'.raised = s.raised)
    (hpublished : s'.published = s.published)
    (hconcerns : ∀ t, ∀ e ∈ s.raised, s'.concerns t e = s.concerns t e)
    (hholding : ∀ t, s.heldFor t ≠ [] → s.isHolding t = true → s'.isHolding t = true) : s'.Owes := by
  have hfor : ∀ t, s'.heldFor t = s.heldFor t := fun t => by unfold heldFor; rw [hheld]
  -- whatever is published or waiting was raised
  have hpublishedRaised : ∀ e ∈ s.published, e ∈ s.raised := fun e he =>
    h.total.mem_iff.mpr (List.mem_append_left _ he)
  have hheldRaised : ∀ t, ∀ e ∈ s.heldFor t, e ∈ s.raised := fun t e he =>
    h.total.mem_iff.mpr (List.mem_append_right _
      ((Roster.perm_flatten h.held_nodup t).mem_iff.mpr (List.mem_append_left _ he)))
  constructor
  · rw [hheld]
    exact h.held_nodup
  · intro t ht
    rw [hfor] at ht
    exact hholding t ht (h.holding t ht)
  · unfold heldEvents
    rw [hheld, hraised, hpublished]
    exact h.total
  · rw [hraised, hpublished]
    exact h.schema
  · intro t
    rw [hraised, hpublished, hfor, List.filter_congr (hconcerns t), List.filter_congr (q := s.concerns t)]
    · exact h.table t
    · intro e he
      exact hconcerns t e ((List.mem_append.mp he).elim (hpublishedRaised e) (hheldRaised t e))
  · intro t e he
    rw [hfor] at he
    obtain ⟨hschema, hown⟩ := h.own t e he
    exact ⟨hschema, fun t' ht' => hown t' (hconcerns t' e (hheldRaised t e he) ▸ ht')⟩

/-- Events that are published at once are in order if nothing waits that they concern. -/
theorem publish (h : s.Owes) (hclear : ∀ t, s.concerns t e = true → s.heldFor t = []) :
    (s.signal e).Owes := by
  refine ⟨h.held_nodup, h.holding, ?_, ?_, fun t => ?_, h.own⟩
  · calc s.raised ++ [e]
      _ ~ s.published ++ s.heldEvents ++ [e] := h.total.append_right [e]
      _ ~ s.published ++ [e] ++ s.heldEvents := by
          rw [List.append_assoc, List.append_assoc]
          exact List.perm_append_comm.append_left _
  · change (s.published ++ [e]).filter _ = (s.raised ++ [e]).filter _
    rw [List.filter_append, List.filter_append, h.schema]
  · change (s.published ++ [e] ++ s.heldFor t).filter (s.concerns t) =
      (s.raised ++ [e]).filter (s.concerns t)
    have htable := h.table t
    -- the event comes last, unless something of its table is waiting
    cases he : s.concerns t e with
    | true =>
        rw [hclear t he, List.append_nil] at htable ⊢
        rw [List.filter_append, List.filter_append, htable]
    | false =>
        simp only [List.filter_append, List.filter_cons, List.filter_nil, he, Bool.false_eq_true,
          if_false, List.append_nil] at htable ⊢
        exact htable

/-- An event waits in the line of its table. -/
theorem hold (h : s.Owes) (ht : s.isHolding t = true) (hschema : e.isOfSchema = false)
    (hown : ∀ t', s.concerns t' e = true → t' = t) :
    { s with held := s.held.insert t (s.heldFor t ++ [e]), raised := s.raised ++ [e] }.Owes := by
  set s₁ := { s with held := s.held.insert t (s.heldFor t ++ [e]), raised := s.raised ++ [e] }
  have hfor : ∀ t', s₁.heldFor t' = if t' = t then s.heldFor t ++ [e] else s.heldFor t' :=
    heldFor_of_insert rfl
  constructor
  · exact Roster.nodup_keys_insert h.held_nodup _ _
  · intro t' ht'
    rw [hfor] at ht'
    split at ht'
    · rename_i heq
      exact heq ▸ ht
    · exact h.holding t' ht'
  · calc s.raised ++ [e]
      _ ~ s.published ++ s.heldEvents ++ [e] := h.total.append_right [e]
      _ ~ s.published ++ s₁.heldEvents := by
          rw [List.append_assoc]
          exact (Roster.perm_flatten_insert h.held_nodup t e).symm.append_left _
  · change s.published.filter _ = (s.raised ++ [e]).filter _
    rw [List.filter_append, h.schema, List.filter_cons_of_neg (by simp [hschema]), List.filter_nil,
      List.append_nil]
  · intro t'
    change (s.published ++ s₁.heldFor t').filter (s.concerns t') =
      (s.raised ++ [e]).filter (s.concerns t')
    rw [hfor, List.filter_append, List.filter_append, ← h.table t']
    by_cases heq : t' = t
    · rw [if_pos heq, heq]
      simp only [List.filter_append, List.append_assoc]
    · have hnot : s.concerns t' e ≠ true := fun he => heq (hown t' he)
      rw [if_neg heq, List.filter_cons_of_neg hnot, List.filter_nil, List.append_nil,
        List.filter_append]
  · intro t' e' he'
    rw [hfor] at he'
    split at he'
    · rename_i heq
      rcases List.mem_append.mp he' with he' | he'
      · exact heq ▸ h.own t e' he'
      · rw [List.mem_singleton.mp he', heq]
        exact ⟨hschema, hown⟩
    · exact h.own t' e' he'

/-- An event is told in order if it belongs to what it concerns, or nothing waits there. -/
theorem raise (h : s.Owes) (hfit : ∀ t, s.concerns t e = true →
    s.tableOf? e = some t ∨ (s.tableOf? e = none ∧ s.heldFor t = [])) : (s.raise e).Owes := by
  -- an event waits exactly if the table it belongs to is in the mode
  unfold Schema.raise
  split
  · rename_i t hholder
    obtain ⟨htable, hholding⟩ := Option.filter_eq_some_iff.mp hholder
    refine h.hold hholding ?_ fun t' he => ?_
    · rw [Bool.eq_false_iff]
      intro hschema
      have hsource : e.source? = some .schema := eq_of_beq hschema
      simp [tableOf?, hsource] at htable
    · rcases hfit t' he with ht' | ⟨hnone, -⟩
      · exact Option.some.inj (ht'.symm.trans htable)
      · cases htable.symm.trans hnone
  · rename_i hholder
    refine h.publish fun t he => ?_
    rcases hfit t he with ht | ⟨-, hnone⟩
    · have hmode := Option.filter_eq_none_iff.mp hholder t ht
      exact h.heldFor_eq_nil (Bool.eq_false_iff.mpr hmode)
    · exact hnone

theorem raiseAll (h : s.Owes)
    (hes : ∀ e ∈ es, ∀ t, s.concerns t e = true → s.tableOf? e = some t) : (s.raiseAll es).Owes := by
  induction es generalizing s with
  | nil => exact h
  | cons e es ih =>
      rw [List.forall_mem_cons] at hes
      refine ih (h.raise fun t he => .inl (hes.1 t he)) fun e' he' t ht => ?_
      have ho := SameObjects.raise e s
      have htable : (s.raise e).tableOf? e' = s.tableOf? e' := by
        unfold tableOf? owner?
        rw [ho.columns, ho.relationships]
      rw [htable]
      exact hes.2 e' he' t (concerns_congr (origins_raise e s) ▸ ht)

/-- Events that come from a table itself. -/
theorem raiseAll_table (h : s.Owes) (hes : ∀ e ∈ es, e.source? = some (.table t)) :
    (s.raiseAll es).Owes := by
  refine h.raiseAll fun e he t' ht' => ?_
  rw [tableOf?_of_table (hes e he)]
  rcases concerns_iff.mp ht' with hsource | ⟨c, hsource, -⟩ | ⟨hsource, -⟩
  · cases (hes e he).symm.trans hsource
    rfl
  · cases (hes e he).symm.trans hsource
  · cases (hes e he).symm.trans hsource

/-- What was held back for a table is published in one go. -/
theorem release (h : s.Owes) (hmode : ∀ t', t' ≠ t → s'.isHolding t' = s.isHolding t')
    (horigins : s'.origins = s.origins) (hraised : s'.raised = s.raised)
    (hheld : s'.held = s.held.erase t) (hpublished : s'.published = s.published ++ s.heldFor t) :
    s'.Owes := by
  have hfor := heldFor_of_erase hheld
  constructor
  · rw [hheld]
    exact Roster.nodup_keys_erase h.held_nodup t
  · intro t' ht'
    rw [hfor] at ht'
    split at ht'
    · exact absurd rfl ht'
    · rename_i hne
      rw [hmode t' hne]
      exact h.holding t' ht'
  · rw [hraised, hpublished, List.append_assoc]
    unfold heldEvents
    rw [hheld]
    exact h.total.trans ((Roster.perm_flatten h.held_nodup t).append_left _)
  · have hnone : (s.heldFor t).filter Event.isOfSchema = [] :=
      List.filter_eq_nil_iff.mpr fun e he => by simp [(h.own t e he).1]
    rw [hraised, hpublished, List.filter_append, hnone, List.append_nil, h.schema]
  -- of another table nothing is published, so its own line stays behind what it has
  · intro t'
    have hconcerns : s'.concerns t' = s.concerns t' := funext fun e => concerns_congr horigins
    rw [hraised, hpublished, hfor, hconcerns, ← h.table t']
    by_cases heq : t' = t
    · rw [if_pos heq, heq, List.append_nil]
    · have hnone : (s.heldFor t).filter (s.concerns t') = [] :=
        List.filter_eq_nil_iff.mpr fun e he hc => heq ((h.own t e he).2 t' hc)
      rw [if_neg heq, List.filter_append, List.filter_append, hnone, List.append_nil,
        List.filter_append]
  · intro t' e he
    rw [hfor] at he
    split at he
    · cases he
    · obtain ⟨hschema, hown⟩ := h.own t' e he
      exact ⟨hschema, fun t'' ht'' => hown t'' (concerns_congr horigins ▸ ht'')⟩

end Owes

/-! ## Effects lose no event -/

theorem isHolding_changeTable (t : TableId) (f : Table → Table) (s : Schema) (t' : TableId) :
    (s.changeTable t f).isHolding t' = if t' = t then (s.tables.get? t).any fun tbl =>
      (f tbl).inSecondaryChange else s.isHolding t' := by
  unfold isHolding
  rw [get?_changeTable]
  split
  · cases s.tables.get? t <;> rfl
  · rfl

/-- A change of a table that keeps it in the mode. -/
theorem Owes.changeTable (h : s.Owes) (t : TableId) {f : Table → Table}
    (hmode : ∀ tbl, s.tables.get? t = some tbl → tbl.inSecondaryChange = true →
      (f tbl).inSecondaryChange = true) : (s.changeTable t f).Owes :=
  h.congr rfl rfl rfl (fun _ _ _ => rfl) fun _ _ ht' => isHolding_of_modify rfl hmode ht'

/-- No event waits for a table that is not there. -/
theorem Owes.heldFor_of_not_contains (h : s.Owes) (ht : s.tables.contains t = false) :
    s.heldFor t = [] := by
  refine h.heldFor_eq_nil ?_
  rw [Roster.contains_eq_false_iff] at ht
  simp [isHolding, ht]

theorem Owes.appendTable (ho : s.Owes) (hs : s.Tidy) (tbl : Table) : (s.appendTable tbl).Owes := by
  -- the number of a table is never given out again, so nothing waits for the new one
  have hfresh : s.heldFor ⟨s.lastTable + 1⟩ = [] := by
    refine ho.heldFor_of_not_contains (Bool.eq_false_iff.mpr fun ht => ?_)
    exact Nat.not_succ_le_self _ (hs.table_fresh _ ht)
  unfold Schema.appendTable
  refine Owes.raise ?_ fun t ht => .inr ⟨rfl, ?_⟩
  · exact ho.congr rfl rfl rfl (fun _ _ _ => rfl) fun _ _ ht => isHolding_of_insert hs rfl ht
  · rcases concerns_iff.mp ht with h | ⟨c, h, -⟩ | ⟨-, h⟩
    · cases h
    · cases h
    · exact Option.some.inj h ▸ hfresh

theorem Owes.eraseTable (ho : s.Owes) (ht : s.isHolding t = false) (i : Nat) :
    (s.eraseTable t i).Owes := by
  have hclear := ho.heldFor_eq_nil ht
  unfold Schema.eraseTable
  refine Owes.raise ?_ fun t' ht' => .inr ⟨rfl, ?_⟩
  · exact ho.congr rfl rfl rfl (fun _ _ _ => rfl) fun _ _ ht' => isHolding_of_erase rfl ht ht'
  · rcases concerns_iff.mp ht' with h | ⟨c, h, -⟩ | ⟨-, h⟩
    · cases h
    · cases h
    · exact Option.some.inj h ▸ hclear

theorem Owes.placeColumn (ho : s.Owes) (hs : s.Tidy) (t : TableId) (i : Nat) (col : Column) :
    (s.placeColumn t i col).Owes := by
  have hlisted := ho.changeTable t (f := fun tbl =>
    { tbl with columns := tbl.columns.insertIdx i s.nextColumn }) fun _ _ => id
  unfold Schema.placeColumn
  refine Owes.raiseAll_table (t := t) ?_ (List.forall_mem_singleton.mpr rfl)
  refine hlisted.congr rfl rfl rfl (fun t' e he => ?_) fun _ _ => id
  -- nothing has been told of a column that is new
  have hhome : ∀ c, e.source? = some (.column c) →
      (s.origins.insert s.nextColumn { col with table := some t }).get? c = s.origins.get? c := by
    intro c hc
    rw [Roster.get?_insert, if_neg]
    rintro rfl
    exact Bool.noConfusion (hs.nextColumn_fresh.symm.trans (hs.sourced e he _ hc))
  unfold concerns isOfTable home?
  split
  · rfl
  · rename_i c hc
    dsimp only
    rw [hhome c hc]
    rfl
  · rfl

theorem Owes.describeColumn (ho : s.Owes) (hs : s.Tidy) {col : Column}
    (hcol : s.columns.get? c = some col) {f : Column → Column} (hf : (f col).table = col.table)
    (property : Property) (old new : PropertyValue) :
    ((s.changeColumn c f).raise (.propertyChanged (.column c) property old new)).Owes := by
  refine Owes.raise (ho.congr rfl rfl rfl (fun _ _ _ => rfl) fun _ _ => id) fun t ht => .inl ?_
  rcases concerns_iff.mp ht with h | ⟨c', h, hhome⟩ | ⟨h, -⟩
  · cases h
  · cases h
    -- the column is where it was put
    obtain ⟨origin, horigin, htable⟩ := hs.stored c col hcol
    have hhome : origin.table = some t := by simpa [home?, changeColumn, horigin] using hhome
    simp [tableOf?, Event.source?, owner?, changeColumn, hcol, hf, ← htable, hhome]
  · cases h

/-- Effects lose no event and put none out of order. -/
theorem Effect.owes {moved : Option (RelationshipId × Option TableId)} (h : Effect moved s s')
    (hs : s.Tidy) (ho : s.Owes) : s'.Owes := by
  cases h with
  | signal e he =>
      refine ho.publish fun t ht => ?_
      -- a signal has no source, so it concerns no table
      rw [Event.isCompoundSignal, Option.isNone_iff_eq_none] at he
      simp [concerns_iff, he] at ht
  | skip h =>
      rw [h.same]
      exact ho.congr rfl rfl rfl (fun _ _ _ => rfl) fun _ _ => id
  | storeRelationship | eraseRelationship =>
      exact ho.congr rfl rfl rfl (fun _ _ _ => rfl) fun _ _ => id
  | describeRelationship hrel hes =>
      refine Owes.raiseAll (ho.congr rfl rfl rfl (fun _ _ _ => rfl) fun _ _ => id) fun e he t ht => ?_
      simp [concerns_iff, hes e he] at ht
  | appendTable tbl => exact ho.appendTable hs tbl
  | eraseTable hi hmode => exact ho.eraseTable hmode _
  | describe t hlists hmode hes =>
      refine Owes.raiseAll_table (t := t) (ho.changeTable t fun tbl _ hon => (hmode tbl).trans hon)
        fun e he => ?_
      obtain ⟨-, property, old, new, rfl⟩ := hes e he
      rfl
  | suspend htbl => exact ho.changeTable _ fun _ _ _ => rfl
  | resume htbl =>
      refine ho.release (fun t' ht' => ?_) rfl rfl rfl rfl
      exact (isHolding_changeTable _ _ s t').trans (if_neg ht')
  | forget ht =>
      refine ho.release (fun t' _ => rfl) rfl rfl rfl ?_
      rw [ho.heldFor_of_not_contains ((Roster.contains_eq_false_iff _ _).mpr ht), List.append_nil]
      rfl
  | relist htbl hsource habout hlists hmode hattributes hnodup hfresh =>
      refine (ho.changeTable _ fun tbl' htbl' hon => ?_).raiseAll_table
        (List.forall_mem_singleton.mpr hsource)
      obtain rfl := Option.some.inj (htbl.symm.trans htbl')
      exact hmode.trans hon
  | placeColumn htbl hi col => exact ho.placeColumn hs _ _ col
  | @dropColumn t tbl c i htbl hi =>
      have hlisted := ho.changeTable t (f := fun tbl =>
        { tbl with columns := tbl.columns.eraseIdx i }) fun _ _ => id
      refine Owes.raiseAll_table (t := t) ?_ (List.forall_mem_singleton.mpr rfl)
      exact hlisted.congr rfl rfl rfl (fun _ _ _ => rfl) fun _ _ => id
  | describeColumn hcol hf => exact ho.describeColumn hs hcol (Column.table_of_update? hf) _ _ _

end Schema

/-- Along every run, what is published and what is waiting make up what was raised. -/
theorem Moment.owes_run (config : Config) (moves : List Move) :
    ((start config).run moves).schema.Owes :=
  (effects_run (fun _ _ _ hs ho h => h.owes hs ho) (Schema.Tidy.ofConfig config)
    (Schema.Owes.ofConfig config) moves).2

end KeyedSchema
