import KeyedSchema.Proofs.Delivery

/-!
# Ordering — the events of one object

An event waits in the line of the table that its source belongs to. Columns and tables never change
that table, so their events stay in one line. A relationship belongs to its child, and it may get
another one: then its later events wait elsewhere, or not at all, while earlier ones still wait for
the old child. `Schema.Lined` says that this has not happened to an object: all its waiting events
are in one line, the one that its next event would join.
-/

namespace KeyedSchema

/-! ## Records that keep a view -/

namespace Roster

variable {κ α β : Type} [DecidableEq κ] {view : α → β} {m : Roster κ α}

/-- Whether the records that are there before and after look the same. -/
def Keeps (view : α → β) (m m' : Roster κ α) : Prop :=
  ∀ k a a', m.get? k = some a → m'.get? k = some a' → view a' = view a

namespace Keeps

theorem of_eq {m' : Roster κ α} (h : m' = m) : m.Keeps view m' := by
  subst h
  intro k a a' ha ha'
  rw [Option.some.inj (ha.symm.trans ha')]

theorem insert {k : κ} (a : α) (hk : m.contains k = false) : m.Keeps view (m.insert k a) := by
  intro k' a₁ a₂ h₁ h₂
  rw [get?_insert] at h₂
  split at h₂
  · rename_i heq
    exact Bool.noConfusion (hk.symm.trans (contains_of_get? (heq ▸ h₁)))
  · rw [Option.some.inj (h₁.symm.trans h₂)]

theorem erase (k : κ) : m.Keeps view (m.erase k) := by
  intro k' a₁ a₂ h₁ h₂
  rw [get?_erase] at h₂
  split at h₂
  · cases h₂
  · rw [Option.some.inj (h₁.symm.trans h₂)]

theorem modify (k : κ) {f : α → α} (hf : ∀ a, m.get? k = some a → view (f a) = view a) :
    m.Keeps view (m.modify k f) := by
  intro k' a₁ a₂ h₁ h₂
  rw [get?_modify] at h₂
  split at h₂
  · rename_i heq
    subst heq
    rw [h₁] at h₂
    obtain rfl := Option.some.inj h₂
    exact hf a₁ h₁
  · rw [Option.some.inj (h₁.symm.trans h₂)]

end Keeps

end Roster

namespace Schema

variable {moved : Option (RelationshipId × Option TableId)} {s s' s₁ : Schema} {o : ObjectRef}
  {os : List ObjectRef} {t t' : TableId} {r : RelationshipId} {new : Option TableId} {e : Event}
  {es : List Event}

/-! ## Where the events of an object wait -/

/-- The table that the events of an object belong to. -/
def seat? (s : Schema) : ObjectRef → Option TableId
  | .schema => none
  | .table t => some t
  | .column c => s.owner? c
  | .relationship r => s.child? r

theorem tableOf?_of_source (h : e.source? = some o) (s : Schema) : s.tableOf? e = s.seat? o := by
  unfold tableOf? seat?
  rw [h]
  cases o <;> rfl

/-- Whether an object belongs where it did, unless it comes or goes. -/
structure Stays (s : Schema) (o : ObjectRef) (s' : Schema) : Prop where
  seat : s.holds o = true → s'.holds o = true → s'.seat? o = s.seat? o

/-- Columns that name the same table, and relationships that name the same child. -/
theorem stays_of_keeps (hcolumns : s.columns.Keeps Column.table s'.columns)
    (hrelationships : s.relationships.Keeps Relationship.child s'.relationships) : s.Stays o s' := by
  refine ⟨fun ho ho' => ?_⟩
  cases o with
  | schema | table => rfl
  | column c =>
      obtain ⟨col, hcol⟩ := (Roster.contains_iff _ c).mp ho
      obtain ⟨col', hcol'⟩ := (Roster.contains_iff _ c).mp ho'
      simp only [seat?, owner?_of_get? hcol, owner?_of_get? hcol', hcolumns c col col' hcol hcol']
  | relationship r =>
      obtain ⟨rel, hrel⟩ := (Roster.contains_iff _ r).mp ho
      obtain ⟨rel', hrel'⟩ := (Roster.contains_iff _ r).mp ho'
      simp only [seat?, child?, hrel, hrel', Option.bind_some, hrelationships r rel rel' hrel hrel']

theorem stays_of_objects (hcolumns : s'.columns = s.columns)
    (hrelationships : s'.relationships = s.relationships) : s.Stays o s' :=
  stays_of_keeps (.of_eq hcolumns) (.of_eq hrelationships)

/-- An object is where it was if it is not a relationship that gets another child. -/
theorem stays_changeRelationship {f : Relationship → Relationship}
    (hchild : o = .relationship r → ∀ rel, s.relationships.get? r = some rel →
      (f rel).child = rel.child) : s.Stays o (s.changeRelationship r f) := by
  by_cases ho : o = .relationship r
  · exact stays_of_keeps (.of_eq rfl) (.modify r (hchild ho))
  · refine ⟨fun _ _ => ?_⟩
    cases o with
    | schema | table | column => rfl
    | relationship r' =>
        have hne : r' ≠ r := fun heq => ho (heq ▸ rfl)
        simp only [seat?, child?, changeRelationship, Roster.get?_modify, if_neg hne]

/-- Taking columns out leaves the others. -/
theorem keeps_foldl_erase {β : Type} {view : Column → β} {cols : Roster ColumnId Column}
    (cs : List ColumnId) : cols.Keeps view (cs.foldl (fun cols c => cols.erase c) cols) := by
  intro c col col' hcol hcol'
  rw [get?_foldl_erase] at hcol'
  split at hcol'
  · cases hcol'
  · rw [Option.some.inj (hcol.symm.trans hcol')]

/-- Whether events of an object are held back for a table. -/
def Waits (s : Schema) (o : ObjectRef) (t : TableId) : Prop := ∃ e ∈ s.heldFor t, e.source? = some o

/-- Whether the events of an object are in order: published ones first, then those that wait, all
for the table that the object belongs to. -/
structure Lined (o : ObjectRef) (s : Schema) : Prop where
  /-- The events of the object wait for one table at most. -/
  one : ∀ t t', s.Waits o t → s.Waits o t' → t = t'
  order : ∀ t, s.Waits o t → (s.published ++ s.heldFor t).filter (fun e => e.source? = some o) =
    s.raised.filter fun e => e.source? = some o
  clear : (∀ t, ¬ s.Waits o t) → s.published.filter (fun e => e.source? = some o) =
    s.raised.filter fun e => e.source? = some o
  seat : ∀ t, s.Waits o t → s.holds o = true → s.seat? o = some t
  issued : ∀ t, s.Waits o t → s.Issued o

theorem waits_congr (hheld : ∀ t, s'.heldFor t = s.heldFor t) : s'.Waits o t ↔ s.Waits o t := by
  unfold Waits
  rw [hheld]

theorem waits_iff : s.Waits o t ↔ (s.heldFor t).filter (fun e => e.source? = some o) ≠ [] := by
  simp [Waits, List.filter_eq_nil_iff]

theorem not_waits_filter (h : ¬ s.Waits o t) :
    (s.heldFor t).filter (fun e => e.source? = some o) = [] :=
  not_not.mp fun hsome => h (waits_iff.mpr hsome)

/-- The schema with an event at the end of the line of a table. -/
def holdBack (s : Schema) (t : TableId) (e : Event) : Schema :=
  { s with held := s.held.insert t (s.heldFor t ++ [e]), raised := s.raised ++ [e] }

namespace Lined

theorem ofConfig (config : Config) (o : ObjectRef) : (ofConfig config).Lined o where
  one _ _ := fun ⟨_, he, _⟩ => nomatch he
  order _ := fun ⟨_, he, _⟩ => nomatch he
  clear _ := rfl
  seat _ := fun ⟨_, he, _⟩ => nomatch he
  issued _ := fun ⟨_, he, _⟩ => nomatch he

/-- It matters only what was told, and where an object that is still there belongs. -/
theorem congr (h : s.Lined o) (hheld : ∀ t, s'.heldFor t = s.heldFor t)
    (hraised : s'.raised = s.raised) (hpublished : s'.published = s.published)
    (hissued : s.Issued o → s'.Issued o)
    (hseat : ∀ t, s.Waits o t → s'.holds o = true → s'.seat? o = some t) : s'.Lined o where
  one t t' ht ht' := h.one t t' ((waits_congr hheld).mp ht) ((waits_congr hheld).mp ht')
  order t ht := by
    rw [hpublished, hheld, hraised]
    exact h.order t ((waits_congr hheld).mp ht)
  clear hnone := by
    rw [hpublished, hraised]
    exact h.clear fun t ht => hnone t ((waits_congr hheld).mpr ht)
  seat t ht := hseat t ((waits_congr hheld).mp ht)
  issued t ht := hissued (h.issued t ((waits_congr hheld).mp ht))

/-- What leaves the events alone, and objects with waiting events where they belong, keeps the line.
An object that is new has no events yet. -/
theorem carry (h : s.Lined o) (hissues : Issues os s s') (hheld : ∀ t, s'.heldFor t = s.heldFor t)
    (hraised : s'.raised = s.raised) (hpublished : s'.published = s.published)
    (hstays : ∀ t, s.Waits o t → s.Stays o s') : s'.Lined o := by
  refine h.congr hheld hraised hpublished (hissues.issued o) fun t ht ho' => ?_
  -- its number was given out, so an object with events that is there now was there before
  have ho : s.holds o = true := by
    rw [← Bool.not_eq_false]
    intro hgone
    exact Bool.noConfusion (ho'.symm.trans (hissues.absent (h.issued t ht) hgone))
  exact ((hstays t ht).seat ho ho').trans (h.seat t ht ho)

/-- An event that is published at once is in order if no event of its source waits. -/
theorem publish (h : s.Lined o) (e : Event) (hclear : e.source? = some o → ∀ t, ¬ s.Waits o t) :
    (s.signal e).Lined o where
  one := h.one
  seat := h.seat
  issued := h.issued
  order t ht := by
    change (s.published ++ [e] ++ s.heldFor t).filter _ = (s.raised ++ [e]).filter _
    have hnot : ¬ (e.source? = some o) := fun hsource => hclear hsource t ht
    have horder := h.order t ht
    simp only [List.filter_append, List.filter_cons, hnot, decide_false, Bool.false_eq_true, if_false,
      List.filter_nil, List.append_nil] at horder ⊢
    exact horder
  clear hnone := by
    change (s.published ++ [e]).filter _ = (s.raised ++ [e]).filter _
    rw [List.filter_append, List.filter_append, h.clear hnone]

/-- An event of the object joins a line that has all its waiting events. -/
theorem hold_own (h : s.Lined o) (hsource : e.source? = some o) (hissued : s.Issued o)
    (hseat : s.holds o = true → s.seat? o = some t) (hall : ∀ t', s.Waits o t' → t' = t) :
    (s.holdBack t e).Lined o := by
  have hfor : ∀ t', (s.holdBack t e).heldFor t' =
      if t' = t then s.heldFor t ++ [e] else s.heldFor t' := heldFor_of_insert rfl
  -- all events of the object wait for the table now
  have hhere : ∀ t', (s.holdBack t e).Waits o t' → t' = t := by
    rintro t' ⟨e', he', hsource'⟩
    rw [hfor] at he'
    split at he'
    · assumption
    · exact hall t' ⟨e', he', hsource'⟩
  have hbefore : (s.published ++ s.heldFor t).filter (fun e => e.source? = some o) =
      s.raised.filter fun e => e.source? = some o := by
    by_cases hwaits : s.Waits o t
    · exact h.order t hwaits
    · rw [List.filter_append, not_waits_filter hwaits, List.append_nil]
      exact h.clear fun t' ht' => hwaits (hall t' ht' ▸ ht')
  refine ⟨fun t₁ t₂ h₁ h₂ => (hhere t₁ h₁).trans (hhere t₂ h₂).symm, fun t' ht' => ?_,
    fun hnone => ?_, fun t' ht' ho => hhere t' ht' ▸ hseat ho, fun _ _ => hissued⟩
  · rw [hhere t' ht', hfor, if_pos rfl]
    change (s.published ++ (s.heldFor t ++ [e])).filter _ = (s.raised ++ [e]).filter _
    rw [← List.append_assoc, List.filter_append, hbefore, List.filter_append]
  · refine absurd ⟨e, ?_, hsource⟩ (hnone t)
    rw [hfor, if_pos rfl]
    exact List.mem_append_right _ (List.mem_singleton_self e)

/-- An event of another object is not looked at. -/
theorem hold_other (h : s.Lined o) (t : TableId) (hsource : e.source? ≠ some o) :
    (s.holdBack t e).Lined o := by
  have hnone : [e].filter (fun e => e.source? = some o) = [] := by simp [hsource]
  have hfilter : ∀ t', ((s.holdBack t e).heldFor t').filter (fun e => e.source? = some o) =
      (s.heldFor t').filter fun e => e.source? = some o := by
    intro t'
    rw [heldFor_of_insert rfl]
    split
    · rename_i heq
      rw [heq, List.filter_append, hnone, List.append_nil]
    · rfl
  have hraised : (s.holdBack t e).raised.filter (fun e => e.source? = some o) =
      s.raised.filter fun e => e.source? = some o := by
    change (s.raised ++ [e]).filter _ = _
    rw [List.filter_append, hnone, List.append_nil]
  have hwaits : ∀ t', (s.holdBack t e).Waits o t' ↔ s.Waits o t' := by
    intro t'
    rw [waits_iff, waits_iff, hfilter]
  refine ⟨fun t₁ t₂ h₁ h₂ => h.one t₁ t₂ ((hwaits t₁).mp h₁) ((hwaits t₂).mp h₂),
    fun t' ht' => ?_, fun hclear => ?_, fun t' ht' => h.seat t' ((hwaits t').mp ht'),
    fun t' ht' => h.issued t' ((hwaits t').mp ht')⟩
  · rw [List.filter_append, hfilter, hraised, ← List.filter_append]
    exact h.order t' ((hwaits t').mp ht')
  · rw [hraised]
    exact h.clear fun t' ht' => hclear t' ((hwaits t').mpr ht')

/-- An event of an object that is there is told in order. -/
theorem raise (h : s.Lined o) (hholding : ∀ t, s.heldFor t ≠ [] → s.isHolding t = true) (e : Event)
    (hsource : e.source? = some o → o = .schema ∨ s.holds o = true ∧ s.Issued o) :
    (s.raise e).Lined o := by
  have hseat : e.source? = some o → ∀ t, s.Waits o t → s.seat? o = some t ∧ s.isHolding t = true := by
    intro he t ht
    obtain ⟨e', he', -⟩ := id ht
    refine ⟨?_, hholding t (List.ne_nil_of_mem he')⟩
    rcases hsource he with rfl | ⟨ho, -⟩
    · exact absurd (h.issued t ht) id
    · exact h.seat t ht ho
  unfold Schema.raise
  split
  · rename_i t hholder
    by_cases he : e.source? = some o
    · obtain ⟨htable, -⟩ := Option.filter_eq_some_iff.mp hholder
      rw [tableOf?_of_source he] at htable
      refine h.hold_own he ?_ (fun _ => htable) fun t' ht' => ?_
      · rcases hsource he with rfl | ⟨-, hissued⟩
        · cases htable
        · exact hissued
      · exact Option.some.inj ((hseat he t' ht').1.symm.trans htable)
    · exact h.hold_other t he
  · rename_i hholder
    refine h.publish e fun he t ht => ?_
    -- the line of its events would have held this one back too
    obtain ⟨htable, hon⟩ := hseat he t ht
    rw [← tableOf?_of_source he] at htable
    exact Option.filter_eq_none_iff.mp hholder t htable hon

/-- What waits for a table is published in its order. -/
theorem release (h : s.Lined o) (t : TableId) : (s.release t).Lined o := by
  have hfor : ∀ t', (s.release t).heldFor t' = if t' = t then [] else s.heldFor t' :=
    heldFor_of_erase rfl
  have hwaits : ∀ t', (s.release t).Waits o t' → t' ≠ t ∧ s.Waits o t' := by
    rintro t' ⟨e, he, hsource⟩
    rw [hfor] at he
    split at he
    · exact absurd he List.not_mem_nil
    · exact ⟨‹_›, e, he, hsource⟩
  refine ⟨fun t₁ t₂ h₁ h₂ => h.one t₁ t₂ (hwaits t₁ h₁).2 (hwaits t₂ h₂).2, fun t' ht' => ?_,
    fun hnone => ?_, fun t' ht' => h.seat t' (hwaits t' ht').2,
    fun t' ht' => h.issued t' (hwaits t' ht').2⟩
  · -- the events of the object wait elsewhere, so none of them is published
    obtain ⟨hne, hwaits'⟩ := hwaits t' ht'
    have hnot : ¬ s.Waits o t := fun ht => hne (h.one t' t hwaits' ht)
    change (s.published ++ s.heldFor t ++ (s.release t).heldFor t').filter _ = s.raised.filter _
    rw [hfor, if_neg hne, ← h.order t' hwaits']
    simp only [List.filter_append, not_waits_filter hnot, List.append_nil]
  · change (s.published ++ s.heldFor t).filter _ = s.raised.filter _
    by_cases ht : s.Waits o t
    · exact h.order t ht
    · rw [List.filter_append, not_waits_filter ht, List.append_nil]
      refine h.clear fun t' ht' => hnone t' ?_
      obtain ⟨e, he, hsource⟩ := id ht'
      refine ⟨e, ?_, hsource⟩
      rw [hfor, if_neg fun heq : t' = t => ht (heq ▸ ht')]
      exact he

end Lined

/-! ## Events and the lines they wait in -/

/-- Whether events wait only for tables in secondary-change mode. -/
def Held (s : Schema) : Prop := ∀ t, s.heldFor t ≠ [] → s.isHolding t = true

theorem isHolding_congr (h : s'.tables = s.tables) (t : TableId) : s'.isHolding t = s.isHolding t := by
  unfold isHolding
  rw [h]

theorem Held.raise (h : s.Held) (e : Event) : (s.raise e).Held := by
  intro t ht
  rw [isHolding_congr (SameObjects.raise e s).tables]
  unfold Schema.raise at ht
  split at ht
  · rename_i t' hholder
    rw [heldFor_of_insert rfl] at ht
    split at ht
    · rename_i heq
      rw [heq]
      exact (Option.filter_eq_some_iff.mp hholder).2
    · exact h t ht
  · exact h t ht

/-- Events of an object that is there are told in order. -/
theorem Lined.raiseAll (h : s.Lined o) (hheld : s.Held)
    (hes : ∀ e ∈ es, e.source? = some o → o = .schema ∨ s.holds o = true ∧ s.Issued o) :
    (s.raiseAll es).Lined o := by
  induction es generalizing s with
  | nil => exact h
  | cons e es ih =>
      rw [List.forall_mem_cons] at hes
      refine ih (h.raise hheld e hes.1) (hheld.raise e) fun e' he' hsource => ?_
      have hobj := SameObjects.raise e s
      refine (hes.2 e' he' hsource).imp_right fun hstays => ?_
      cases o <;> simp only [holds, Issued, hobj.tables, hobj.columns, hobj.relationships,
        hobj.lastTable, hobj.lastColumn, hobj.lastRelationship] <;> exact hstays

/-! ## Effects keep the lines -/

/-- Whether every object that is there has a number that was given out. -/
def AllIssued (s : Schema) : Prop := ∀ o, s.holds o = true → s.Issued o

theorem allIssued_ofConfig (config : Config) : (ofConfig config).AllIssued := by
  intro o ho
  cases o <;> exact Bool.noConfusion ho

namespace AllIssued

/-- The next number of each sort is free. -/
theorem table_next (h : s.AllIssued) : s.tables.contains ⟨s.lastTable + 1⟩ = false :=
  Bool.eq_false_iff.mpr fun ht => Nat.not_succ_le_self _ (h (.table _) ht)

theorem column_next (h : s.AllIssued) : s.columns.contains s.nextColumn = false :=
  Bool.eq_false_iff.mpr fun hc => Nat.not_succ_le_self _ (h (.column _) hc)

theorem relationship_next (h : s.AllIssued) :
    s.relationships.contains ⟨s.lastRelationship + 1⟩ = false :=
  Bool.eq_false_iff.mpr fun hr => Nat.not_succ_le_self _ (h (.relationship _) hr)

theorem of_issues (h : s.AllIssued) (hissues : Issues os s s') : s'.AllIssued := fun o ho =>
  (hissues.holds o ho).elim (fun hold => hissues.issued o (h o hold)) fun hnew => (hissues.new o hnew).2

end AllIssued

theorem Effect.issues (h : Effect moved s s') : ∃ os, Issues os s s' := by
  cases h with
  | signal e => exact ⟨[], (SameObjects.signal e s).issues⟩
  | skip h => exact ⟨[], h.issues⟩
  | storeRelationship rel => exact ⟨_, issues_storeRelationship rel s⟩
  | eraseRelationship =>
      exact ⟨[], .none rfl rfl rfl (fun _ ht => ht) (fun _ hc => hc)
        fun _ hr => Roster.contains_of_erase hr⟩
  | describeRelationship =>
      exact ⟨[], (issues_changeRelationship _ _ s).told (SameObjects.raiseAll _ _)⟩
  | appendTable tbl =>
      obtain ⟨es, -, h⟩ := tells_appendTable tbl s
      exact ⟨_, h⟩
  | @eraseTable t i hi hmode =>
      have herase : Change none s (s.eraseTable t i) := .eraseTable hi hmode
      obtain ⟨es, -, h⟩ := herase.tells
      exact ⟨_, h⟩
  | describe t => exact ⟨[], (issues_changeTable t _ s).told (SameObjects.raiseAll _ _)⟩
  | @suspend t => exact ⟨[], issues_changeTable t _ s⟩
  | @resume t => exact ⟨[], (issues_changeTable t _ s).told (.release t _)⟩
  | @forget t => exact ⟨[], (SameObjects.forget t s).issues⟩
  | @relist t => exact ⟨[], (issues_changeTable t _ s).told (.raise _ _)⟩
  | @placeColumn t tbl htbl i hi col =>
      obtain ⟨es, -, h⟩ := tells_placeColumn t i col s
      exact ⟨_, h⟩
  | @dropColumn t =>
      refine ⟨[], .none (SameObjects.raise _ _).lastTable (SameObjects.raise _ _).lastColumn
        (SameObjects.raise _ _).lastRelationship (fun t' ht => ?_) (fun c hc => ?_) fun r hr => ?_⟩
      · rw [Schema.dropColumn, (SameObjects.raise _ _).tables] at ht
        simpa [changeTable] using ht
      · rw [Schema.dropColumn, (SameObjects.raise _ _).columns] at hc
        exact Roster.contains_of_erase hc
      · rwa [Schema.dropColumn, (SameObjects.raise _ _).relationships] at hr
  | @describeColumn c => exact ⟨[], (issues_changeColumn c _ s).told (.raise _ _)⟩

/-- A change and the events that tell of it. -/
theorem Lined.told (h : s.Lined o) (hall : s.AllIssued) (hwaiting : s.Held)
    (hissues : Issues os s (s₁.raiseAll es)) (hheld : s₁.held = s.held)
    (hraised : s₁.raised = s.raised) (hpublished : s₁.published = s.published)
    (hholding : ∀ t, s.isHolding t = true → s₁.isHolding t = true)
    (hstays : ∀ t, s.Waits o t → s.Stays o s₁)
    (hes : ∀ e ∈ es, ∃ o', e.source? = some o' ∧ (o' = .schema ∨ s₁.holds o' = true)) :
    (s₁.raiseAll es).Lined o := by
  replace hissues : Issues os s s₁ := hissues.told (SameObjects.raiseAll es s₁).symm
  have hfor : ∀ t, s₁.heldFor t = s.heldFor t := fun t => by unfold heldFor; rw [hheld]
  refine (h.carry hissues hfor hraised hpublished hstays).raiseAll (fun t ht => ?_) fun e he hsource => ?_
  · rw [hfor] at ht
    exact hholding t (hwaiting t ht)
  · obtain ⟨o', ho', hthere⟩ := hes e he
    obtain rfl := Option.some.inj (ho'.symm.trans hsource)
    exact hthere.imp_right fun hstored => ⟨hstored, hall.of_issues hissues o' hstored⟩

/-- A change and the one event that tells of it. -/
theorem Lined.told_raise (h : s.Lined o) (hall : s.AllIssued) (hwaiting : s.Held)
    (hissues : Issues os s (s₁.raise e)) {o' : ObjectRef} (hsource : e.source? = some o')
    (hthere : o' = .schema ∨ s₁.holds o' = true) (hheld : s₁.held = s.held)
    (hraised : s₁.raised = s.raised) (hpublished : s₁.published = s.published)
    (hholding : ∀ t, s.isHolding t = true → s₁.isHolding t = true)
    (hstays : ∀ t, s.Waits o t → s.Stays o s₁) : (s₁.raise e).Lined o := by
  rw [raise_eq_raiseAll] at hissues ⊢
  exact h.told hall hwaiting hissues hheld hraised hpublished hholding hstays
    (List.forall_mem_singleton.mpr ⟨o', hsource, hthere⟩)

/-- Whether a relationship that is to get the child `new` leaves no table in secondary-change mode
behind. -/
def leavesClear (s : Schema) (r : RelationshipId) (new : Option TableId) : Bool :=
  (s.child? r).all fun t => new = some t || !s.isHolding t

theorem leavesClear_iff : s.leavesClear r new = true ↔
    ∀ t, s.child? r = some t → s.isHolding t = true → new = some t := by
  unfold leavesClear
  cases s.child? r with
  | none => simp
  | some t => cases hon : s.isHolding t <;> simp [hon]

/-- A relationship whose events wait keeps its child if it leaves no table in the mode behind. -/
theorem Lined.child_eq (h : s.Lined (.relationship r)) (hwaiting : s.Held) {rel : Relationship}
    (hrel : s.relationships.get? r = some rel) (ht : s.Waits (.relationship r) t)
    (hclear : s.leavesClear r new = true) : new = rel.child := by
  have hchild : s.child? r = some t := h.seat t ht (Roster.contains_of_get? hrel)
  have hon : s.isHolding t = true := by
    obtain ⟨e, he, -⟩ := ht
    exact hwaiting t (List.ne_nil_of_mem he)
  have hkept : rel.child = some t := by simpa [child?, hrel] using hchild
  exact (leavesClear_iff.mp hclear t hchild hon).trans hkept.symm

/-- Effects keep the events of an object in line, unless the object is a relationship that leaves a
table in secondary-change mode behind. -/
theorem Effect.lined (h : Effect moved s s') (hs : s.Tidy) (ho : s.Owes) (hall : s.AllIssued)
    (hl : s.Lined o)
    (hmove : ∀ r new, o = .relationship r → moved = some (r, new) → s.leavesClear r new = true) :
    s'.Lined o := by
  obtain ⟨os, hissues⟩ := h.issues
  cases h with
  | signal e he =>
      refine hl.publish e fun hsource => ?_
      rw [Event.isCompoundSignal, hsource] at he
      cases he
  | skip h =>
      obtain ⟨heq, -⟩ := h
      refine hl.carry hissues (fun t => ?_) ?_ ?_ fun _ _ => stays_of_objects ?_ ?_
      all_goals rw [heq]
      rfl
  | storeRelationship rel =>
      exact hl.carry hissues (fun _ => rfl) rfl rfl fun _ _ =>
        stays_of_keeps (.of_eq rfl) (.insert _ hall.relationship_next)
  | eraseRelationship =>
      exact hl.carry hissues (fun _ => rfl) rfl rfl fun _ _ => stays_of_keeps (.of_eq rfl) (.erase _)
  -- the one change by which an object that stays may come to belong to another table
  | @describeRelationship r rel hrel f es hes hchild =>
      refine hl.told hall ho.holding hissues rfl rfl rfl (fun _ => id)
        (fun t hwaits => stays_changeRelationship fun hself rel' hrel' => ?_)
        fun e he => ⟨_, hes e he, .inr ?_⟩
      · obtain rfl := Option.some.inj (hrel.symm.trans hrel')
        subst hself
        rcases hchild with hchild | hmoved
        · exact hchild
        · exact hl.child_eq ho.holding hrel hwaits (hmove r _ rfl hmoved)
      · simp [holds, changeRelationship, Roster.contains_of_get? hrel]
  | appendTable tbl =>
      unfold Schema.appendTable at hissues ⊢
      exact hl.told_raise hall ho.holding hissues rfl (.inl rfl) rfl rfl rfl
        (fun _ ht => isHolding_of_insert hs rfl ht) fun _ _ => stays_of_objects rfl rfl
  | eraseTable hi hmode =>
      unfold Schema.eraseTable at hissues ⊢
      exact hl.told_raise hall ho.holding hissues rfl (.inl rfl) rfl rfl rfl
        (fun _ ht => isHolding_of_erase rfl hmode ht)
        fun _ _ => stays_of_keeps (keeps_foldl_erase _) (.of_eq rfl)
  | describe t hlists hmode hes =>
      refine hl.told hall ho.holding hissues rfl rfl rfl
        (fun _ ht => isHolding_of_modify rfl (fun tbl _ => (hmode tbl).trans) ht)
        (fun _ _ => stays_of_objects rfl rfl) fun e he => ?_
      · obtain ⟨ht, property, old, new, rfl⟩ := hes e he
        exact ⟨_, rfl, .inr (by simpa [holds, changeTable] using ht)⟩
  | suspend htbl hmoved =>
      exact hl.carry hissues (fun _ => rfl) rfl rfl fun _ _ => stays_of_objects rfl rfl
  | @resume t tbl htbl =>
      -- the mode is left first, and what waited is published then
      have hissues' : Issues os s (s.setSecondaryChange t false) :=
        hissues.told (SameObjects.release t _).symm
      exact (hl.carry hissues' (fun _ => rfl) rfl rfl fun _ _ => stays_of_objects rfl rfl).release t
  | @forget t ht =>
      refine hl.carry hissues (fun t' => ?_) rfl rfl fun _ _ => stays_of_objects rfl rfl
      -- without its table nothing waits in the line that is thrown away
      have hnone := ho.heldFor_of_not_contains ((Roster.contains_eq_false_iff _ _).mpr ht)
      refine (heldFor_of_erase rfl t').trans ?_
      split
      · rename_i heq
        rw [heq, hnone]
      · rfl
  | relist htbl hsource habout hlists hmode =>
      refine hl.told_raise hall ho.holding hissues hsource (.inr ?_) rfl rfl rfl
        (fun _ ht => isHolding_of_modify rfl (fun tbl' htbl' => ?_) ht)
        fun _ _ => stays_of_objects rfl rfl
      · simp [holds, changeTable, Roster.contains_of_get? htbl]
      · obtain rfl := Option.some.inj (htbl.symm.trans htbl')
        exact hmode.trans
  | placeColumn htbl hi col =>
      unfold Schema.placeColumn at hissues ⊢
      refine hl.told_raise hall ho.holding hissues rfl (.inr ?_) rfl rfl rfl
        (fun _ ht => isHolding_of_modify rfl (fun _ _ => id) ht)
        fun _ _ => stays_of_keeps (.insert _ hall.column_next) (.of_eq rfl)
      simp [holds, changeTable, Roster.contains_of_get? htbl]
  | dropColumn htbl hi =>
      unfold Schema.dropColumn at hissues ⊢
      refine hl.told_raise hall ho.holding hissues rfl (.inr ?_) rfl rfl rfl
        (fun _ ht => isHolding_of_modify rfl (fun _ _ => id) ht)
        fun _ _ => stays_of_keeps (.erase _) (.of_eq rfl)
      simp [holds, changeTable, Roster.contains_of_get? htbl]
  | @describeColumn c col hcol property old new f hf =>
      refine hl.told_raise hall ho.holding hissues rfl (.inr ?_) rfl rfl rfl (fun _ => id)
        fun _ _ => stays_of_keeps (.modify c fun col' hcol' => ?_) (.of_eq rfl)
      · simp [holds, changeColumn, Roster.contains_of_get? hcol]
      · obtain rfl := Option.some.inj (hcol.symm.trans hcol')
        exact Column.table_of_update? hf

/-- While a relationship gets another child, no table but that one enters secondary-change mode. -/
theorem Effect.isHolding (h : Effect (some (r, new)) s s') (ht : s'.isHolding t = true) :
    s.isHolding t = true ∨ new = some t := by
  obtain ⟨tbl', htbl', hon⟩ := isHolding_iff.mp ht
  have hsame (htables : s'.tables = s.tables) : s.isHolding t = true :=
    isHolding_iff.mpr ⟨tbl', htables ▸ htbl', hon⟩
  -- a table that is changed was in the mode before if it is so after
  have hchanged {t' : TableId} {f : Table → Table} (htables : s'.tables = (s.changeTable t' f).tables)
      (hmode : ∀ tbl, s.tables.get? t' = some tbl → (f tbl).inSecondaryChange = true →
        tbl.inSecondaryChange = true) : s.isHolding t = true := by
    rw [htables, get?_changeTable] at htbl'
    split at htbl'
    · rename_i heq
      obtain ⟨tbl, htbl, rfl⟩ := Option.map_eq_some_iff.mp htbl'
      exact isHolding_iff.mpr ⟨tbl, heq ▸ htbl, hmode tbl htbl hon⟩
    · exact isHolding_iff.mpr ⟨tbl', htbl', hon⟩
  cases h with
  | signal | storeRelationship | eraseRelationship | forget => exact .inl (hsame rfl)
  | skip h => exact .inl (hsame ((congrArg Schema.tables h.same).trans rfl))
  | describeRelationship => exact .inl (hsame (SameObjects.raiseAll _ _).tables)
  | describeColumn => exact .inl (hsame (SameObjects.raise _ _).tables)
  | appendTable tbl =>
      -- the new table is not in the mode
      rw [Schema.appendTable, (SameObjects.raise _ _).tables, Roster.get?_insert] at htbl'
      split at htbl'
      · obtain rfl := Option.some.inj htbl'
        cases hon
      · exact .inl (isHolding_iff.mpr ⟨tbl', htbl', hon⟩)
  | eraseTable =>
      rw [Schema.eraseTable, (SameObjects.raise _ _).tables, Roster.get?_erase] at htbl'
      split at htbl'
      · cases htbl'
      · exact .inl (isHolding_iff.mpr ⟨tbl', htbl', hon⟩)
  | describe t' hlists hmode =>
      exact .inl (hchanged (SameObjects.raiseAll _ _).tables fun tbl _ hon => (hmode tbl).symm.trans hon)
  | @suspend t' tbl htbl hmoved =>
      rw [setSecondaryChange, get?_changeTable] at htbl'
      split at htbl'
      · rename_i heq
        exact .inr (heq ▸ hmoved r new rfl)
      · exact .inl (isHolding_iff.mpr ⟨tbl', htbl', hon⟩)
  | @resume t' tbl htbl =>
      have htables : ((s.setSecondaryChange t' false).release t').tables =
          (s.changeTable t' fun tbl => { tbl with inSecondaryChange := false }).tables := rfl
      exact .inl (hchanged htables fun _ _ => Bool.noConfusion)
  | relist htbl hsource habout hlists hmode =>
      refine .inl (hchanged (SameObjects.raise _ _).tables fun tbl htbl₁ hon => ?_)
      obtain rfl := Option.some.inj (htbl.symm.trans htbl₁)
      exact hmode.symm.trans hon
  | placeColumn =>
      exact .inl (hchanged (placeColumn_objects ..).tables fun _ _ => id)
  | dropColumn => exact .inl (hchanged (SameObjects.raise _ _).tables fun _ _ => id)

/-- A relationship that gets another child keeps the old one until then. -/
theorem Effect.child? (h : Effect (some (r, new)) s s') (ht : s'.child? r = some t) :
    s.child? r = some t ∨ new = some t := by
  have hsame (hrels : s'.relationships = s.relationships) : s.child? r = some t := by
    unfold Schema.child? at ht ⊢
    rwa [hrels] at ht
  cases h with
  | signal | suspend | resume | forget => exact .inl (hsame rfl)
  | skip h => exact .inl (hsame ((congrArg Schema.relationships h.same).trans rfl))
  | storeRelationship rel hmoved => cases hmoved
  | @eraseRelationship r' =>
      simp only [Schema.child?, Roster.get?_erase] at ht
      split at ht
      · cases ht
      · exact .inl ht
  | @describeRelationship r' rel hrel f es hes hchild =>
      rw [Schema.child?, (SameObjects.raiseAll _ _).relationships, changeRelationship,
        Roster.get?_modify] at ht
      split at ht
      · rename_i heq
        subst heq
        have hnow : (f rel).child = some t := by simpa [hrel] using ht
        rcases hchild with hchild | hmoved
        · exact .inl (by simp [Schema.child?, hrel, ← hchild, hnow])
        · simp only [Option.some.injEq, Prod.mk.injEq] at hmoved
          exact .inr (hmoved.2.trans hnow)
      · exact .inl ht
  | describe => exact .inl (hsame (SameObjects.raiseAll _ _).relationships)
  | appendTable | eraseTable | relist | placeColumn | dropColumn | describeColumn =>
      exact .inl (hsame (SameObjects.raise _ _).relationships)

/-- What an effect leaves clear, it has found clear. -/
theorem Effect.leavesClear (h : Effect (some (r, new)) s s') (hclear : s.leavesClear r new = true) :
    s'.leavesClear r new = true := by
  rw [leavesClear_iff] at hclear ⊢
  intro t ht hon
  rcases h.child? ht with hchild | hnew
  · exact (h.isHolding hon).elim (hclear t hchild) id
  · exact hnew

/-- What a series of effects needs to keep the events of an object in line. -/
structure Orderly (moved : Option (RelationshipId × Option TableId)) (o : ObjectRef) (s : Schema) :
    Prop where
  owes : s.Owes
  issued : s.AllIssued
  lined : s.Lined o
  clear : ∀ r new, o = .relationship r → moved = some (r, new) → s.leavesClear r new = true

theorem Effect.orderly (h : Effect moved s s') (hs : s.Tidy) (ho : s.Orderly moved o) :
    s'.Orderly moved o where
  owes := h.owes hs ho.owes
  issued := by
    obtain ⟨os, hissues⟩ := h.issues
    exact ho.issued.of_issues hissues
  lined := h.lined hs ho.owes ho.issued ho.lined ho.clear
  clear := by
    rintro r new rfl rfl
    exact h.leavesClear (ho.clear r new rfl rfl)

end Schema

/-! ## Sessions -/

namespace Session

open Schema

variable {s : Session} {o : ObjectRef} {r : RelationshipId}

/-- Whether no act takes the relationship away from a table that is in secondary-change mode. -/
def keepsLine (r : RelationshipId) (s : Session) : List Act → Bool
  | [] => true
  | act :: acts =>
      (act.moved?.all fun (r', new) => r' ≠ r || s.schema.leavesClear r new) &&
        (s.after act).keepsLine r acts

/-- The events of an object stay in line. -/
theorem lined_run (acts : List Act) (hs : s.schema.Tidy) (howes : s.schema.Owes)
    (hissued : s.schema.AllIssued) (hlined : s.schema.Lined o)
    (hline : ∀ r, o = .relationship r → s.keepsLine r acts = true) :
    (s.run acts).schema.Lined o := by
  -- along the acts: `keepsLine` asks each act about the session that it finds
  induction acts generalizing s with
  | nil => exact hlined
  | cons act acts ih =>
      have heffects := effects_after hs act
      have hfirst : s.schema.Orderly act.moved? o := by
        refine ⟨howes, hissued, hlined, fun r new ho hmoved => ?_⟩
        have hhead := hline r ho
        simp only [keepsLine, hmoved, Bool.and_eq_true, Option.all_some, ne_eq, not_true, decide_false,
          Bool.false_or] at hhead
        exact hhead.1
      have hafter := Effects.preserves heffects (fun _ _ hs ho h => h.orderly hs ho) hs hfirst
      refine ih (Effects.tidy heffects hs) hafter.owes hafter.issued hafter.lined fun r ho => ?_
      have hhead := hline r ho
      rw [keepsLine, Bool.and_eq_true] at hhead
      exact hhead.2

end Session

end KeyedSchema
