import KeyedSchema.Proofs.Passing
import KeyedSchema.Proofs.Step

/-!
# Identity — who owns a column, and which object an identifier denotes

Every stored column is listed once, by the table it names, and tables list nothing but stored
columns. An object gets the next number of its kind when it is put into the schema, and numbers only
move on; so no identifier is given to two objects, and one whose object is gone denotes none again.

`Moment.insertions` collects the objects that are put in along a run, those that cascades make
included. `Schema.Issues` says of a list of objects that it is all that comes in from one schema to
another, under numbers that are new; it holds of single changes and can be chained.
-/

namespace KeyedSchema

/-! ## Ownership -/

/-- Whether columns and the tables that list them agree. -/
structure Schema.Owned (s : Schema) : Prop where
  /-- A stored column names a stored table, which lists it exactly once. -/
  listed : ∀ c col, s.columns.get? c = some col →
    ∃ t tbl, col.table = some t ∧ s.tables.get? t = some tbl ∧ tbl.columns.count c = 1
  /-- No other table lists it. -/
  alone : ∀ c col, s.columns.get? c = some col →
    ∀ t tbl, s.tables.get? t = some tbl → c ∈ tbl.columns → col.table = some t
  /-- What a table lists is a stored column. -/
  stored : ∀ t tbl, s.tables.get? t = some tbl → ∀ c ∈ tbl.columns, s.columns.contains c = true

theorem Schema.Sound.ownership {s : Schema} (hs : s.Sound) : s.Owned where
  listed := by
    intro c col hcol
    obtain ⟨t, ht⟩ := hs.owned c (Roster.contains_of_get? hcol)
    obtain ⟨tbl, htbl, hc⟩ := mem_columnsOf.mp ((hs.listed t c).mpr ht)
    have hnodup : tbl.columns.Nodup := by simpa [columnsOf, htbl] using hs.columnsOf_nodup t
    exact ⟨t, tbl, (owner?_of_get? hcol).symm.trans ht, htbl, List.count_eq_one_of_mem hnodup hc⟩
  alone := by
    intro c col hcol t tbl htbl hc
    exact (owner?_of_get? hcol).symm.trans ((hs.listed t c).mp (mem_columnsOf.mpr ⟨tbl, htbl, hc⟩))
  stored := by
    intro t tbl htbl c hc
    exact contains_of_owner? ((hs.listed t c).mp (mem_columnsOf.mpr ⟨tbl, htbl, hc⟩))

/-! ## Identifiers -/

namespace Schema

variable {s s' s'' : Schema} {o : ObjectRef} {os os' : List ObjectRef}

/-- Whether an object of the schema has the identifier. -/
def holds (s : Schema) : ObjectRef → Bool
  | .schema => false
  | .table t => s.tables.contains t
  | .column c => s.columns.contains c
  | .relationship r => s.relationships.contains r

/-- Whether the number of an identifier has been given out. -/
def Issued (s : Schema) : ObjectRef → Prop
  | .schema => False
  | .table t => t.val ≤ s.lastTable
  | .column c => c.val ≤ s.lastColumn
  | .relationship r => r.val ≤ s.lastRelationship

/-- Whether `os` is all that is put in from `s` to `s'`, under numbers that are given out in
between, each once. -/
structure Issues (os : List ObjectRef) (s s' : Schema) : Prop where
  issued : ∀ o, s.Issued o → s'.Issued o
  new : ∀ o ∈ os, ¬ s.Issued o ∧ s'.Issued o
  nodup : os.Nodup
  holds : ∀ o, s'.holds o = true → s.holds o = true ∨ o ∈ os

namespace Issues

theorem trans (h : Issues os s s') (h' : Issues os' s' s'') : Issues (os ++ os') s s'' where
  issued o ho := h'.issued o (h.issued o ho)
  new := by
    intro o ho
    rcases List.mem_append.mp ho with ho | ho
    · exact ⟨(h.new o ho).1, h'.issued o (h.new o ho).2⟩
    · exact ⟨fun hs => (h'.new o ho).1 (h.issued o hs), (h'.new o ho).2⟩
  nodup := by
    refine h.nodup.append h'.nodup fun o ho ho' => ?_
    -- what came in first has its number before the rest comes in
    exact (h'.new o ho').1 (h.new o ho).2
  holds := by
    intro o ho
    rcases h'.holds o ho with ho | ho
    · exact (h.holds o ho).imp_right fun ho => List.mem_append_left _ ho
    · exact .inr (List.mem_append_right _ ho)

/-- An object that has its number and is not there does not come in. -/
theorem absent (h : Issues os s s') (hissued : s.Issued o) (ho : s.holds o = false) :
    s'.holds o = false := by
  rw [Bool.eq_false_iff] at ho ⊢
  intro ho'
  rcases h.holds o ho' with hstored | hnew
  · exact ho hstored
  · exact (h.new o hnew).1 hissued

/-- Kind by kind: numbers only move on, and whatever is found under a new identifier is listed. -/
theorem of_kinds (htable : s.lastTable ≤ s'.lastTable) (hcolumn : s.lastColumn ≤ s'.lastColumn)
    (hrel : s.lastRelationship ≤ s'.lastRelationship)
    (hnew : ∀ o ∈ os, ¬ s.Issued o ∧ s'.Issued o) (hnodup : os.Nodup)
    (htables : ∀ t, s'.tables.contains t = true → s.tables.contains t = true ∨ .table t ∈ os)
    (hcolumns : ∀ c, s'.columns.contains c = true → s.columns.contains c = true ∨ .column c ∈ os)
    (hrels : ∀ r, s'.relationships.contains r = true →
      s.relationships.contains r = true ∨ .relationship r ∈ os) : Issues os s s' where
  issued := by
    intro o ho
    cases o with
    | schema => exact ho
    | table t => exact Nat.le_trans ho htable
    | column c => exact Nat.le_trans ho hcolumn
    | relationship r => exact Nat.le_trans ho hrel
  new := hnew
  nodup := hnodup
  holds := by
    intro o ho
    cases o with
    | schema => exact .inl ho
    | table t => exact htables t ho
    | column c => exact hcolumns c ho
    | relationship r => exact hrels r ho

/-- Nothing comes in where no new identifier is found. -/
theorem none (htable : s'.lastTable = s.lastTable) (hcolumn : s'.lastColumn = s.lastColumn)
    (hrel : s'.lastRelationship = s.lastRelationship)
    (htables : ∀ t, s'.tables.contains t = true → s.tables.contains t = true)
    (hcolumns : ∀ c, s'.columns.contains c = true → s.columns.contains c = true)
    (hrels : ∀ r, s'.relationships.contains r = true → s.relationships.contains r = true) :
    Issues [] s s' :=
  .of_kinds (Nat.le_of_eq htable.symm) (Nat.le_of_eq hcolumn.symm) (Nat.le_of_eq hrel.symm)
    (fun _ ho => absurd ho List.not_mem_nil) .nil (fun t ht => .inl (htables t ht))
    (fun c hc => .inl (hcolumns c hc)) fun r hr => .inl (hrels r hr)

/-- One object comes in, under a number that is given out for it. -/
theorem one (htable : s.lastTable ≤ s'.lastTable) (hcolumn : s.lastColumn ≤ s'.lastColumn)
    (hrel : s.lastRelationship ≤ s'.lastRelationship) (hnew : ¬ s.Issued o) (hnow : s'.Issued o)
    (htables : ∀ t, s'.tables.contains t = true → s.tables.contains t = true ∨ .table t = o)
    (hcolumns : ∀ c, s'.columns.contains c = true → s.columns.contains c = true ∨ .column c = o)
    (hrels : ∀ r, s'.relationships.contains r = true →
      s.relationships.contains r = true ∨ .relationship r = o) : Issues [o] s s' := by
  refine .of_kinds htable hcolumn hrel ?_ (List.nodup_singleton o)
    (fun t ht => (htables t ht).imp_right List.mem_singleton.mpr)
    (fun c hc => (hcolumns c hc).imp_right List.mem_singleton.mpr)
    fun r hr => (hrels r hr).imp_right List.mem_singleton.mpr
  intro o' ho'
  obtain rfl := List.mem_singleton.mp ho'
  exact ⟨hnew, hnow⟩

end Issues

theorem SameObjects.issues (h : SameObjects s s') : Issues [] s s' :=
  .none h.lastTable h.lastColumn h.lastRelationship (fun _ ht => h.tables ▸ ht)
    (fun _ hc => h.columns ▸ hc) fun _ hr => h.relationships ▸ hr

/-- Events put nothing in. -/
theorem Issues.told (h : Issues os s s') (ho : SameObjects s' s'') : Issues os s s'' :=
  List.append_nil os ▸ h.trans ho.issues

end Schema

/-! ## Objects that events tell of -/

/-- The object that an event tells to be put in: a table into the schema, or a column into a table.
Registrations and mappings are no objects. -/
def Event.inserted? : Event → Option ObjectRef
  | childInserted .schema (.table t) _ => some (.table t)
  | childInserted (.table _) (.column c) _ => some (.column c)
  | _ => none

namespace Schema

variable {s s' s'' : Schema} {t : TableId} {c : ColumnId} {r : RelationshipId} {e : Event}

@[simp] theorem raised_raise (e : Event) (s : Schema) : (s.raise e).raised = s.raised ++ [e] := by
  unfold raise
  split <;> rfl

@[simp] theorem raised_raiseAll (es : List Event) (s : Schema) :
    (s.raiseAll es).raised = s.raised ++ es := by
  unfold raiseAll
  induction es generalizing s with
  | nil => simp
  | cons e es ih => simp [ih]

/-- Whether the events raised from `s` to `s'` tell of all that comes in. -/
def Tells (s s' : Schema) : Prop :=
  ∃ es, s'.raised = s.raised ++ es ∧ Issues (es.filterMap Event.inserted?) s s'

namespace Tells

theorem refl (s : Schema) : Tells s s := ⟨[], (List.append_nil _).symm, (SameObjects.refl s).issues⟩

theorem trans (h : Tells s s') (h' : Tells s' s'') : Tells s s'' := by
  rcases h with ⟨es, hraised, h⟩
  rcases h' with ⟨es', hraised', h'⟩
  have hall : s''.raised = s.raised ++ (es ++ es') := calc
    s''.raised = s'.raised ++ es' := hraised'
    _ = s.raised ++ es ++ es' := by rw [hraised]
    _ = s.raised ++ (es ++ es') := List.append_assoc ..
  refine ⟨es ++ es', hall, ?_⟩
  rw [List.filterMap_append]
  exact h.trans h'

/-- What has not been told of is told at once. -/
theorem raise (h : Issues e.inserted?.toList s s') (hraised : s'.raised = s.raised) :
    Tells s (s'.raise e) := by
  refine ⟨[e], by rw [raised_raise, hraised], ?_⟩
  have hone : [e].filterMap Event.inserted? = e.inserted?.toList := by
    cases he : e.inserted? <;> simp [he]
  rw [hone]
  exact h.told (.raise e s')

theorem raiseAll {es : List Event} (h : Issues [] s s') (hraised : s'.raised = s.raised)
    (hquiet : ∀ e ∈ es, e.inserted? = Option.none) : Tells s (s'.raiseAll es) := by
  refine ⟨es, by rw [raised_raiseAll, hraised], ?_⟩
  rw [List.filterMap_eq_nil_iff.mpr hquiet]
  exact h.told (.raiseAll es s')

/-- Nothing comes in, and nothing is told. -/
theorem silent (h : Issues [] s s') (hraised : s'.raised = s.raised) : Tells s s' :=
  ⟨[], by rw [hraised, List.append_nil], h⟩

end Tells

theorem issues_changeTable (t : TableId) (f : Table → Table) (s : Schema) :
    Issues [] s (s.changeTable t f) :=
  .none rfl rfl rfl (fun t' ht => by simpa [changeTable] using ht) (fun _ hc => hc) fun _ hr => hr

theorem issues_changeColumn (c : ColumnId) (f : Column → Column) (s : Schema) :
    Issues [] s (s.changeColumn c f) :=
  .none rfl rfl rfl (fun _ ht => ht) (fun c' hc => by simpa [changeColumn] using hc) fun _ hr => hr

theorem issues_changeRelationship (r : RelationshipId) (f : Relationship → Relationship)
    (s : Schema) : Issues [] s (s.changeRelationship r f) :=
  .none rfl rfl rfl (fun _ ht => ht) (fun _ hc => hc)
    fun r' hr => by simpa [changeRelationship] using hr

theorem tells_appendTable (tbl : Table) (s : Schema) : Tells s (s.appendTable tbl) := by
  refine .raise (.one (o := .table ⟨s.lastTable + 1⟩) (Nat.le_succ _) (Nat.le_refl _) (Nat.le_refl _)
    (Nat.not_succ_le_self _) (Nat.le_refl _) ?_ (fun _ hc => .inl hc) fun _ hr => .inl hr) rfl
  intro t ht
  exact (Roster.contains_of_insert ht).imp_right (congrArg ObjectRef.table)

theorem tells_placeColumn (t : TableId) (i : Nat) (col : Column) (s : Schema) :
    Tells s (s.placeColumn t i col) := by
  refine .raise (.one (o := .column s.nextColumn) (Nat.le_refl _) (Nat.le_succ _) (Nat.le_refl _)
    (Nat.not_succ_le_self _) (Nat.le_refl _) ?_ ?_ fun _ hr => .inl hr) rfl
  · intro t' ht
    exact .inl (by simpa [changeTable] using ht)
  · intro c hc
    exact (Roster.contains_of_insert hc).imp_right (congrArg ObjectRef.column)

/-- Numbering a key puts nothing in. -/
theorem tells_renumber (n : Nat) (ranks : List (ColumnId × Nat)) (s : Schema) :
    Tells s (renumber n ranks s) := by
  induction ranks generalizing n s with
  | nil => exact .refl s
  | cons entry ranks ih =>
      obtain ⟨c, rank⟩ := entry
      unfold renumber
      split
      · exact ih _ _
      · refine Tells.trans ?_ (ih _ _)
        exact .raise (issues_changeColumn c _ s) rfl

/-- The signals of compound edits put nothing in. -/
theorem tells_signal (he : e.isCompoundSignal = true) (s : Schema) : Tells s (s.signal e) := by
  -- only a compound signal has no source
  have hquiet : e.inserted? = none := by
    cases e with
    | childInserted source child index => exact absurd he Bool.noConfusion
    | _ => rfl
  refine ⟨[e], rfl, ?_⟩
  rw [List.filterMap_cons_none hquiet]
  exact (SameObjects.signal e s).issues

/-- Single changes tell of what comes in. -/
theorem Change.tells {moved : Option (RelationshipId × Option TableId)} (h : Change moved s s') :
    Tells s s' := by
  cases h
  case appendTable tbl => exact tells_appendTable tbl s
  case eraseTable t i hi hmode =>
    refine .raise (.none rfl rfl rfl (fun _ ht => Roster.contains_of_erase ht) (fun c hc => ?_)
      fun _ hr => hr) rfl
    unfold Roster.contains at hc ⊢
    rw [get?_foldl_erase] at hc
    split at hc
    · exact absurd hc Bool.noConfusion
    · exact hc
  case setMagic t on => exact .silent (issues_changeTable t _ s) rfl
  case suspend t tbl htbl hmode hmoved => exact .silent (issues_changeTable t _ s) rfl
  case resume t tbl htbl =>
    exact .silent ((issues_changeTable t _ s).told (.release t _)) rfl
  case forget t ht => exact .silent (SameObjects.forget t s).issues rfl
  case placeColumn t tbl htbl i hi col => exact tells_placeColumn t i col s
  case renumber t placed => exact tells_renumber 0 _ s
  case dropColumn t tbl c i hc htbl hi =>
    refine .raise (.none rfl rfl rfl (fun t' ht => ?_) (fun _ hc' => Roster.contains_of_erase hc')
      fun _ hr => hr) rfl
    simpa [changeTable] using ht
  case eraseRelationship r rel hrel =>
    exact .silent (.none rfl rfl rfl (fun _ ht => ht) (fun _ hc => hc)
      fun _ hr => Roster.contains_of_erase hr) rfl
  case unmapWhere p r =>
    unfold Schema.unmapWhere
    split
    · exact .refl s
    · refine .raiseAll (issues_changeRelationship r _ s) rfl fun e he => ?_
      obtain ⟨entry, -, rfl⟩ := List.mem_map.mp he
      rfl
  case clearMappings r =>
    unfold Schema.clearMappings
    split
    · exact .refl s
    · refine .raiseAll (issues_changeRelationship r _ s) rfl fun e he => ?_
      obtain ⟨entry, -, rfl⟩ := List.mem_map.mp he
      rfl
  case syncMappingOrder r =>
    unfold Schema.syncMappingOrder
    split
    · exact .refl s
    · dsimp only
      split
      · exact .refl s
      · exact .raise (issues_changeRelationship r _ s) rfl
  -- the changes of one object, each with an event that puts nothing in
  case describeTable | registerExported | registerImported | deregisterExported
      | deregisterImported => exact .raise (issues_changeTable _ _ s) rfl
  case describeColumn | changeRank => exact .raise (issues_changeColumn _ _ s) rfl
  all_goals exact .raise (issues_changeRelationship _ _ s) rfl

theorem Changes.tells {moved : Option (RelationshipId × Option TableId)} (h : Changes moved s s') :
    Tells s s' := by
  induction h with
  | refl => exact .refl _
  | tail _ hlast ih => exact ih.trans hlast.tells
  | compound _ description _ ih ihbody =>
      exact ((ih.trans (tells_signal rfl _)).trans ihbody).trans (tells_signal rfl _)

/-! ## Runs -/

theorem Untouched.issues (h : Untouched s s') : Issues [] s s' := by
  obtain ⟨heq, htable, hcolumn, hrel⟩ := h
  refine .of_kinds htable hcolumn hrel (fun _ ho => absurd ho List.not_mem_nil) .nil ?_ ?_ ?_
  · intro t ht
    rw [heq] at ht
    exact .inl ht
  · intro c hc
    rw [heq] at hc
    exact .inl hc
  · intro r hr
    rw [heq] at hr
    exact .inl hr

theorem SameShape.issues (h : SameShape s s') : Issues [] s s' :=
  .none h.lastTable h.lastColumn h.lastRelationship (fun t ht => h.contains_table t ▸ ht)
    (fun c hc => h.contains_column c ▸ hc) fun r hr => h.contains_relationship r ▸ hr

theorem issues_storeRelationship (rel : Relationship) (s : Schema) :
    Issues [.relationship ⟨s.lastRelationship + 1⟩] s (s.storeRelationship rel) := by
  refine .one (Nat.le_refl _) (Nat.le_refl _) (Nat.le_succ _) (Nat.not_succ_le_self _)
    (Nat.le_refl _) (fun _ ht => .inl ht) (fun _ hc => .inl hc) ?_
  intro r hr
  exact (Roster.contains_of_insert hr).imp_right (congrArg ObjectRef.relationship)

end Schema

namespace Op

open Schema

variable {s : Schema}

/-- What an edit ends in, the operation performs. -/
theorem perform_of_ends {α : Type} {x : Edit α} {f : α → Reply} {op : Op} {P : Schema → Prop}
    (hop : op.edit = f <$> x) (h : x.Ends (fun _ => P) (fun _ => P) s) : P (op.perform s).2 := by
  refine Edit.Ends.left (x := op.edit) ?_
  rw [hop, Edit.ends_map]
  exact h

/-- Creating a relationship stores it, unless it is refused. -/
theorem perform_createRelationship (rel : Relationship) (s : Schema) :
    ((createRelationship rel).perform s).2 = s.storeRelationship { rel with mappings := [] } ∨
      s.Untouched ((createRelationship rel).perform s).2 :=
  perform_of_ends (P := fun s' => s' = s.storeRelationship { rel with mappings := [] } ∨
    s.Untouched s') rfl
    ((Edit.createRelationship_ends s rel).mono (fun _ _ h => .inl h.2.2.2) fun _ _ h => .inr h)

/-- Moving a column puts nothing in. -/
theorem issues_moveColumn (hs : s.Sound) (c : ColumnId) (index : Nat) :
    Issues [] s ((moveColumn c index).perform s).2 := by
  refine perform_of_ends (P := Issues [] s) rfl
    ((Edit.moveColumn_atomic hs c index).mono ?_ fun _ _ h => h.issues)
  rintro _ s' ⟨s₁, h₁, rfl | ⟨t, rfl⟩⟩
  · exact h₁.shape.issues
  · exact h₁.shape.issues.trans (reranks_normalizeKey t none s₁).sameShape.issues

/-- The relationship that an outcome names as a new one. -/
def created : Except EditError Reply → List ObjectRef
  | .ok (.relationship r) => [.relationship r]
  | _ => []

/-- Creating a relationship puts in the one that it names. -/
theorem issues_createRelationship (rel : Relationship) (s : Schema) :
    Issues (created ((createRelationship rel).perform s).1) s
      ((createRelationship rel).perform s).2 := by
  have hends : (createRelationship rel).edit.Ends
      (fun reply s' => reply = .relationship ⟨s.lastRelationship + 1⟩ ∧
        s' = s.storeRelationship { rel with mappings := [] })
      (fun _ s' => s.Untouched s') s := by
    unfold edit
    rw [Edit.ends_map]
    refine (Edit.createRelationship_ends s rel).imp ?_
    rintro r s' ⟨rfl, -, -, rfl⟩
    exact ⟨rfl, rfl⟩
  rcases hp : (createRelationship rel).perform s with ⟨e | reply, s'⟩
  · -- a refusal names nothing, though it may use a number up
    exact (Edit.Ends.of_error hends hp).issues
  · rcases Edit.Ends.of_ok hends hp with ⟨rfl, rfl⟩
    exact issues_storeRelationship _ s

end Op

/-- The relationship that a move may give another child, and that child. -/
def Move.moved? : Move → Option (RelationshipId × Option TableId)
  | .edit op => op.moved?
  | .enter _ | .leave => none

namespace Moment

open Schema

variable {m : Moment}

/-- The objects that a move puts into the schema, in order, as a client is told of them. A
relationship is created without an event and named by the reply. A column that is moved is told to
be taken out and put in again, and is no new one. -/
def inserted (m : Moment) : Move → List ObjectRef
  | .edit (.moveColumn _ _) => []
  | .edit (.createRelationship rel) =>
      Op.created ((Op.createRelationship rel).perform m.schema).1
  | move => ((m.after move).schema.raised.drop m.schema.raised.length).filterMap Event.inserted?

/-- The objects that a series of moves puts into the schema, in order. -/
def insertions (m : Moment) : List Move → List ObjectRef
  | [] => []
  | move :: moves => m.inserted move ++ (m.after move).insertions moves

theorem schema_after_enter (m : Moment) (scope : Scope) :
    (m.after (.enter scope)).schema = ((Edit.enter scope).perform m.schema).2 := by
  unfold after
  dsimp only
  split <;> rename_i h <;> rw [h]

/-- Moves are series of single changes, but for the two operations that no cascade does and for
opening and closing compound edits, each of which is one signal. -/
theorem changes_after (m : Moment) (move : Move) (hmove : ∀ c index, move ≠ .edit (.moveColumn c index))
    (hcreate : ∀ rel, move ≠ .edit (.createRelationship rel)) :
    Changes move.moved? m.schema (m.after move).schema ∨
      ∃ e, e.isCompoundSignal = true ∧ (m.after move).schema = m.schema.signal e := by
  cases move with
  | edit op =>
      refine .inl (Edit.Passes.changes (Op.passes_edit op (fun c index h => ?_) (fun rel h => ?_)
        op.allows_moved? _))
      · exact hmove c index (congrArg Move.edit h)
      · exact hcreate rel (congrArg Move.edit h)
  | enter scope =>
      rw [schema_after_enter]
      cases scope with
      | compound description => exact .inr ⟨.compoundEditStarted description, rfl, rfl⟩
      | secondaryChange | magicDisabled =>
          refine .inl (Edit.passes_enter (fun _ => ?_) (fun _ _ _ _ => ?_) _).changes
          · exact Scope.noConfusion
          · simp [Move.moved?]
  | leave =>
      unfold after
      dsimp only
      split
      · exact .inl .refl
      · rename_i opened _ _
        cases opened with
        | compound => exact .inr ⟨.compoundEditEnded, rfl, rfl⟩
        | secondaryChange | magicDisabled =>
            exact .inl (Edit.passes_leave OpenScope.noConfusion _).changes

/-- Every move puts in nothing but new objects. -/
theorem issues_after (hs : m.schema.Sound) (move : Move) :
    Issues (m.inserted move) m.schema (m.after move).schema := by
  unfold inserted
  split
  · exact Op.issues_moveColumn hs _ _
  · exact Op.issues_createRelationship _ _
  · rename_i hmove hcreate
    have htells : Tells m.schema (m.after move).schema := by
      rcases changes_after m move hmove hcreate with h | ⟨e, he, h⟩
      · exact h.tells
      · exact h ▸ tells_signal he m.schema
    rcases htells with ⟨es, hraised, hissues⟩
    rw [hraised, List.drop_left]
    exact hissues

theorem sound_after (hs : m.schema.Sound) (move : Move) : (m.after move).schema.Sound :=
  run_preserves (P := Sound) (fun _ op hs => Op.sound_perform hs op)
    (fun _ scope hs => Edit.sound_enter hs scope) (fun _ opened hs => Edit.sound_leave hs opened) hs
    [move]

/-- A run puts in nothing but new objects, and no number serves twice. -/
theorem issues_run (hs : m.schema.Sound) (moves : List Move) :
    Issues (m.insertions moves) m.schema (m.run moves).schema := by
  induction moves generalizing m with
  | nil => exact (SameObjects.refl _).issues
  | cons move moves ih =>
      exact (issues_after hs move).trans (ih (sound_after hs move))

end Moment

/-- Along every run, each stored column is listed exactly once, by the table that it names, and
tables list only stored columns. No identifier is given to two of the objects that are put in along
the run; every stored object is one of them; and once one of them is gone, its identifier denotes no
object any more. -/
theorem Moment.identities (config : Config) (earlier later : List Move) :
    (((start config).run earlier).run later).schema.Owned ∧
    ((start config).insertions (earlier ++ later)).Nodup ∧
    (∀ o, (((start config).run earlier).run later).schema.holds o = true →
      o ∈ (start config).insertions (earlier ++ later)) ∧
    ∀ o ∈ (start config).insertions earlier, ((start config).run earlier).schema.holds o = false →
      (((start config).run earlier).run later).schema.holds o = false := by
  have hreach : Schema.Reachable (((start config).run earlier).run later).schema :=
    ⟨config, earlier ++ later, congrArg Moment.schema (run_append _ earlier later)⟩
  have hmid : Schema.Reachable ((start config).run earlier).schema := ⟨config, earlier, rfl⟩
  have hstart : (start config).schema.Sound := Schema.sound_ofConfig config
  have hall := issues_run hstart (earlier ++ later)
  rw [run_append] at hall
  refine ⟨hreach.sound.ownership, hall.nodup, ?_, ?_⟩
  · intro o ho
    -- the schema that a run starts from holds nothing
    refine (hall.holds o ho).resolve_left ?_
    cases o <;> exact Bool.noConfusion
  · intro o ho hgone
    exact (issues_run hmid.sound later).absent ((issues_run hstart earlier).new o ho).2 hgone

/-- A relationship that makes a column, and a column that is moved and then removed. -/
def discardingMoves : List Move :=
  [.edit (.addTable { name := "a" }),
    .edit (.addColumn ⟨1⟩ { name := "id", rank := some 0 }),
    .edit (.addTable { name := "b" }),
    .edit (.createRelationship { name := "ab" }),
    .edit (.attachRelationship ⟨1⟩ ⟨1⟩ ⟨2⟩ true),
    .edit (.addColumn ⟨1⟩ { name := "note" }),
    .edit (.moveColumn ⟨3⟩ 0),
    .edit (.removeColumn ⟨3⟩)]

/-- What was removed is added again, as it was when a client got hold of it: a column that names a
table, and a copy of a table that lists columns. -/
def readdingMoves : List Move :=
  [.edit (.addColumn ⟨2⟩ { name := "note", table := some ⟨1⟩ }),
    .edit (.removeTable ⟨1⟩),
    .edit (.addTable { name := "a", columns := [⟨1⟩, ⟨3⟩], exportedKeys := [⟨1⟩] })]

/-- What is added again comes in under new identifiers, and the old ones stay without an object. -/
theorem Moment.identities_readding :
    (start {}).insertions (discardingMoves ++ readdingMoves) =
      [.table ⟨1⟩, .column ⟨1⟩, .table ⟨2⟩, .relationship ⟨1⟩, .column ⟨2⟩, .column ⟨3⟩,
        .column ⟨4⟩, .table ⟨3⟩] ∧
    (((start {}).run discardingMoves).run readdingMoves).schema.Owned ∧
    ((start {}).insertions (discardingMoves ++ readdingMoves)).Nodup ∧
    (((start {}).run discardingMoves).run readdingMoves).schema.holds (.column ⟨4⟩) = true ∧
    ObjectRef.column ⟨4⟩ ∈ (start {}).insertions (discardingMoves ++ readdingMoves) ∧
    ObjectRef.column ⟨3⟩ ∈ (start {}).insertions discardingMoves ∧
    ((start {}).run discardingMoves).schema.holds (.column ⟨3⟩) = false ∧
    (((start {}).run discardingMoves).run readdingMoves).schema.holds (.column ⟨3⟩) = false := by
  have hheld : (((start {}).run discardingMoves).run readdingMoves).schema.holds (.column ⟨4⟩) = true :=
    by decide +kernel
  have hin : ObjectRef.column ⟨3⟩ ∈ (start {}).insertions discardingMoves := by decide +kernel
  have hout : ((start {}).run discardingMoves).schema.holds (.column ⟨3⟩) = false := by decide +kernel
  obtain ⟨howned, hnodup, hstored, hgone⟩ := identities {} discardingMoves readdingMoves
  exact ⟨by decide +kernel, howned, hnodup, hheld, hstored _ hheld, hin, hout, hgone _ hin hout⟩

end KeyedSchema
