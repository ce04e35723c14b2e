import KeyedSchema.Proofs.Acyclicity
import KeyedSchema.Proofs.Effects

/-!
# Switches — which edits leave the switches of tables alone

A table has two switches, secondary-change mode and magic. Two operations set them for good, the
toggles. Every other operation leaves the switches of the tables alone, whatever it ends in, although
attaching a relationship puts the child into the mode for a while.

What is kept is said by `KeepsSwitches`. It speaks of the tables that were there, which may go, and
says nothing about the tables that come.
-/

namespace KeyedSchema

namespace Schema

variable {s s' s'' : Schema} {t : TableId} {r : RelationshipId}

/-! ## Keeping the switches -/

/-- Whether the tables of the first schema have in the second one the switches that they had, if they
are still there. No table comes back under a number that was given out. -/
structure KeepsSwitches (s s' : Schema) : Prop where
  lastTable : s.lastTable ≤ s'.lastTable
  switchesOf : ∀ t : TableId, t.val ≤ s.lastTable →
    s'.switchesOf t = none ∨ s'.switchesOf t = s.switchesOf t

namespace KeepsSwitches

/-- Every table has the switches that it had. -/
theorem of_switchesOf (hlast : s.lastTable ≤ s'.lastTable)
    (h : ∀ t, s'.switchesOf t = s.switchesOf t) : KeepsSwitches s s' :=
  ⟨hlast, fun t _ => .inr (h t)⟩

@[refl] theorem refl (s : Schema) : KeepsSwitches s s := of_switchesOf (Nat.le_refl _) fun _ => rfl

theorem trans (h : KeepsSwitches s s') (h' : KeepsSwitches s' s'') : KeepsSwitches s s'' := by
  refine ⟨Nat.le_trans h.lastTable h'.lastTable, fun t ht => ?_⟩
  rcases h'.switchesOf t (Nat.le_trans ht h.lastTable) with hgone | hsame
  · exact .inl hgone
  · rw [hsame]
    exact h.switchesOf t ht

theorem of_tables (htables : s'.tables = s.tables) (hlast : s.lastTable ≤ s'.lastTable) :
    KeepsSwitches s s' := by
  refine of_switchesOf hlast fun t => ?_
  unfold Schema.switchesOf
  rw [htables]

/-- Changing a table in some other way. -/
theorem of_changeTable {f : Table → Table} (h : SameObjects (s.changeTable t f) s')
    (hf : ∀ tbl, (f tbl).switches = tbl.switches) : KeepsSwitches s s' := by
  refine of_switchesOf (Nat.le_of_eq h.lastTable.symm) fun t' => ?_
  unfold Schema.switchesOf
  rw [h.tables]
  exact Roster.read_modify _ t t' (Option.map Table.switches) fun tbl => congrArg some (hf tbl)

end KeepsSwitches

theorem SameObjects.keepsSwitches (h : SameObjects s s') : KeepsSwitches s s' :=
  .of_tables h.tables (Nat.le_of_eq h.lastTable.symm)

theorem SameFrame.keepsSwitches (h : SameFrame s s') : KeepsSwitches s s' :=
  .of_switchesOf (Nat.le_of_eq h.lastTable.symm) h.switchesOf

theorem Reregisters.keepsSwitches (h : Reregisters s s') : KeepsSwitches s s' :=
  .of_switchesOf (Nat.le_of_eq h.lastTable.symm) h.switchesOf

theorem Untouched.keepsSwitches (h : Untouched s s') : KeepsSwitches s s' := by
  refine .of_tables ?_ h.lastTable
  rw [h.same]

theorem keepsSwitches_changeColumn (c : ColumnId) (f : Column → Column) (s : Schema) :
    KeepsSwitches s (s.changeColumn c f) := .of_tables rfl (Nat.le_refl _)

theorem keepsSwitches_changeRelationship (r : RelationshipId) (f : Relationship → Relationship)
    (s : Schema) : KeepsSwitches s (s.changeRelationship r f) := .of_tables rfl (Nat.le_refl _)

/-- The event that tells of a change. -/
theorem KeepsSwitches.raise (h : KeepsSwitches s s') (e : Event) : KeepsSwitches s (s'.raise e) :=
  h.trans (SameObjects.raise e s').keepsSwitches

theorem AmidEvents.keepsSwitches {R : Schema → Schema → Prop} (h : AmidEvents R s s')
    (hR : ∀ s₁ s₂, SameObjects s s₁ → R s₁ s₂ → KeepsSwitches s₁ s₂) : KeepsSwitches s s' :=
  h.preserves (.refl s) (fun _ _ ho h => h.trans ho.keepsSwitches)
    fun s₁ s₂ ho h₁ h => h₁.trans (hR s₁ s₂ ho h)

/-! ## Setting the switches -/

theorem switchesOf_setSecondaryChange (t : TableId) (on : Bool) (s : Schema) (t' : TableId) :
    (s.setSecondaryChange t on).switchesOf t' =
      if t' = t then (s.switchesOf t).map fun switches => (switches.1, on) else s.switchesOf t' := by
  unfold switchesOf setSecondaryChange changeTable
  rw [Roster.get?_modify]
  split
  · rename_i heq
    rw [heq, Option.map_map, Option.map_map]
    rfl
  · rfl

theorem switchesOf_setMagic (t : TableId) (on : Bool) (s : Schema) (t' : TableId) :
    (s.setMagic t on).switchesOf t' =
      if t' = t then (s.switchesOf t).map fun switches => (on, switches.2) else s.switchesOf t' := by
  unfold switchesOf setMagic changeTable
  rw [Roster.get?_modify]
  split
  · rename_i heq
    rw [heq, Option.map_map, Option.map_map]
    rfl
  · rfl

theorem switchesOf_settled (t : TableId) (s : Schema) (t' : TableId) :
    (s.settled t).switchesOf t' =
      if t' = t then (s.switchesOf t).map fun switches => (switches.1, false)
      else s.switchesOf t' := by
  rw [← switchesOf_setSecondaryChange]
  unfold switchesOf settled
  rw [(SameObjects.release t _).tables]

theorem isHolding_eq_of_switchesOf : s.isHolding t = (s.switchesOf t).any Prod.snd := by
  unfold isHolding switchesOf
  cases s.tables.get? t <;> rfl

/-- A table that was outside the mode is put into it, and later it is settled: then it is outside
again. The tables may have lost their switches in between, but not changed them. -/
theorem KeepsSwitches.of_settled (hout : s.isHolding t = false) (hlast : s.lastTable ≤ s''.lastTable)
    (h : ∀ t' : TableId, t'.val ≤ s.lastTable → s'.switchesOf t' = none ∨
      s'.switchesOf t' = (s.setSecondaryChange t true).switchesOf t')
    (hsettled : ∀ t', s''.switchesOf t' = (s'.settled t).switchesOf t') : KeepsSwitches s s'' := by
  refine ⟨hlast, fun t' ht' => ?_⟩
  have hkept := h t' ht'
  rw [switchesOf_setSecondaryChange] at hkept
  rw [hsettled, switchesOf_settled]
  by_cases heq : t' = t
  · subst heq
    rw [if_pos rfl] at hkept ⊢
    rcases hkept with hgone | hsame
    · exact .inl (by rw [hgone]; rfl)
    · right
      rw [isHolding_eq_of_switchesOf] at hout
      rw [hsame]
      cases hswitches : s.switchesOf t' with
      | none => rfl
      | some switches =>
          rw [hswitches] at hout
          exact congrArg (fun mode => some (switches.1, mode)) (Eq.symm hout)
  · rw [if_neg heq] at hkept ⊢
    exact hkept

/-! ## Operations -/

theorem coversDismissal_keepsSwitches : CoversDismissal KeepsSwitches where
  refl := .refl
  trans := .trans
  unlink {s} _ r := by
    have hcleared := unmaps_clearMappings r ((s.deregisterExported r).deregisterImported r)
    exact (reregisters_deregister r s).keepsSwitches.trans hcleared.sameFrame.keepsSwitches
  check hs hw := (hs.prune hw).2.frame.keepsSwitches
  drop _ := .of_tables rfl (Nat.le_refl _)

/-- A table that goes takes its switches along, and no other table's. -/
theorem Removes.keepsSwitches (h : Removes t s s') (hs : s.Sound) : KeepsSwitches s s' := by
  obtain ⟨-, s₁, i, hchain, ho⟩ := h
  have herased : KeepsSwitches s₁ (s₁.eraseTable t i) := by
    refine ⟨Nat.le_of_eq (eraseTable_objects t i s₁).lastTable.symm, fun t' _ => ?_⟩
    unfold switchesOf
    rw [get?_eraseTable]
    split
    · exact .inl rfl
    · exact .inr rfl
  exact ((coversDismissal_keepsSwitches.chain hs hchain).trans herased).trans ho.keepsSwitches

/-- A new table comes under a number of its own. -/
theorem keepsSwitches_appendTable (tbl : Table) (s : Schema) :
    KeepsSwitches s (s.appendTable tbl) := by
  have hlast : (s.appendTable tbl).lastTable = s.lastTable + 1 := by
    unfold appendTable
    simp
  refine ⟨by omega, fun t ht => .inr ?_⟩
  have hne : t ≠ s.nextTable := by
    rintro rfl
    exact absurd ht (Nat.not_succ_le_self _)
  unfold switchesOf
  rw [get?_appendTable, if_neg hne]

theorem Marks.keepsSwitches {new : Bool} (h : Marks r new s s') (hs : s.Sound) :
    KeepsSwitches s s' := by
  have hmarked : ∀ old, KeepsSwitches s (s.markIdentifying r old new) := fun old =>
    .of_tables (markIdentifying_objects r old new s).tables
      (Nat.le_of_eq (markIdentifying_objects r old new s).lastTable.symm)
  cases h with
  | plain _ => exact hmarked _
  | tightens hnew _ _ hw =>
      subst hnew
      exact (hmarked false).trans (sameFrame_of_grow hw).keepsSwitches
  | loosens hnew _ _ hw =>
      subst hnew
      have hpruned := ((hs.of_sameShape (sameShape_markIdentifying ..)).prune hw).2.frame
      exact (hmarked true).trans hpruned.keepsSwitches

/-- Connecting a relationship and mapping the key of its parent leaves the switches as they are. -/
theorem Wires.switchesOf {p ch : TableId} {auto : Bool} (h : Wires r p ch auto s s') (t : TableId) :
    s'.switchesOf t = s.switchesOf t := by
  obtain ⟨s₁, hc, hw⟩ := h.connected
  calc s'.switchesOf t = s₁.switchesOf t := (sameFrame_of_grow hw).switchesOf t
    _ = s.switchesOf t := hc.switchesOf t

/-- Attaching puts the child into the mode for a while, unless it is in it anyway. -/
theorem KeepsSwitches.of_wires {p ch : TableId} {auto : Bool}
    (hwires : Wires r p ch auto (s.suspended ch) s') (hlast : s.lastTable ≤ s''.lastTable)
    (hends : (s.isHolding ch = true ∧ s'' = s') ∨
      (s.isHolding ch = false ∧ SameFrame (s'.settled ch) s'')) : KeepsSwitches s s'' := by
  rcases hends with ⟨hin, rfl⟩ | ⟨hout, hframe⟩
  · refine .of_switchesOf hlast fun t => ?_
    rw [hwires.switchesOf, suspended, if_pos hin]
  · refine .of_settled hout hlast (fun t _ => .inr ?_) hframe.switchesOf
    rw [hwires.switchesOf, suspended, if_neg (Bool.eq_false_iff.mp hout)]

end Schema

namespace Edit

open Schema

variable {α β : Type} {s : Schema}

/-- Whether an edit keeps the switches, whatever it ends in. -/
def Steady (x : Edit α) (s : Schema) : Prop :=
  x.Ends (fun _ s' => s.KeepsSwitches s') (fun _ s' => s.KeepsSwitches s') s

theorem steady_map (f : β → α) (x : Edit β) : (f <$> x).Steady s ↔ x.Steady s := by
  unfold Steady
  rw [ends_map]

theorem Atomic.steady {x : Edit α} {R : Schema → Prop} (h : x.Atomic (fun _ s' => R s') s)
    (hR : ∀ s', R s' → s.KeepsSwitches s') : x.Steady s :=
  h.mono (fun _ s' h => hR s' h) fun _ _ h => h.keepsSwitches

theorem steady_compoundIf (when : Bool) (description : String) {x : Edit α} (h : ∀ s, x.Steady s) :
    (compoundIf when description x).Steady s := by
  unfold compoundIf Steady
  split
  · rw [ends_compound]
    have hopens := (SameObjects.signal (.compoundEditStarted description) s).keepsSwitches
    have hcloses : ∀ s', KeepsSwitches s' (s'.signal .compoundEditEnded) := fun s' =>
      (SameObjects.signal .compoundEditEnded s').keepsSwitches
    exact (h _).mono (fun _ s' h => (hopens.trans h).trans (hcloses s'))
      fun _ s' h => (hopens.trans h).trans (hcloses s')
  · exact h s

theorem steady_forM {f : β → Edit Unit} (h : ∀ b s, (f b).Steady s) (bs : List β) :
    (bs.forM f).Steady s := by
  refine Ends.forM (I := fun _ s₁ => s.KeepsSwitches s₁) (fun b _ s₁ h₁ => ?_) (.refl s)
  exact (h b s₁).mono (fun _ _ h₂ => h₁.trans h₂) fun _ _ h₂ => h₁.trans h₂

/-! ### Descriptions -/

theorem steady_describeTable (t : TableId) (property : Property) (value : Table → PropertyValue)
    {f : Table → Table} (hf : ∀ tbl, (f tbl).switches = tbl.switches) :
    (describeTable t property value f).Steady s := by
  unfold describeTable Steady
  simp only [ends_bind, ends_table, ends_change, ends_raise]
  exact ⟨fun tbl _ => .of_changeTable (SameObjects.raise _ _) hf, fun _ => .refl s⟩

theorem steady_describeColumn (c : ColumnId) (property : Property) (value : Column → PropertyValue)
    (f : Column → Column) : (describeColumn c property value f).Steady s := by
  unfold describeColumn Steady
  simp only [ends_bind, ends_column, ends_change, ends_raise]
  exact ⟨fun col _ => (keepsSwitches_changeColumn c f s).raise _, fun _ => .refl s⟩

theorem steady_describeRelationship (r : RelationshipId) (property : Property)
    (value : Relationship → PropertyValue) (f : Relationship → Relationship) :
    (describeRelationship r property value f).Steady s := by
  unfold describeRelationship Steady
  simp only [ends_bind, ends_relationship, ends_change, ends_raise]
  exact ⟨fun rel _ => (keepsSwitches_changeRelationship r f s).raise _, fun _ => .refl s⟩

theorem steady_renameWithin (name : String) (depth : Nat) : ∀ (c : ColumnId) (s : Schema),
    (renameWithin name depth c).Steady s := by
  induction depth with
  | zero => exact fun _ s => .refl s
  | succ depth ih =>
      intro c s
      unfold renameWithin Steady
      simp only [ends_bind, ends_column, ends_change, ends_raise]
      refine ⟨fun col _ => ?_, fun _ => .refl s⟩
      have hrenamed : s.KeepsSwitches ((s.changeColumn c fun col => { col with name }).raise
          (.propertyChanged (.column c) .name (.text col.name) (.text name))) :=
        (keepsSwitches_changeColumn c _ s).raise _
      split
      · rw [ends_bind]
        refine followers_ends ?_ fun _ => hrenamed
        refine (steady_forM (fun fk s₁ => ?_) _).mono (fun _ _ h => hrenamed.trans h)
          fun _ _ h => hrenamed.trans h
        unfold Steady
        simp only [ends_bind, ends_column]
        refine ⟨fun fcol _ => ?_, fun _ => .refl s₁⟩
        split
        · exact ih fk s₁
        · exact .refl s₁
      · exact hrenamed

theorem steady_setColumnName (c : ColumnId) (name : String) : (setColumnName c name).Steady s := by
  unfold setColumnName Steady
  simp only [ends_bind, ends_discard, ends_column]
  refine ⟨fun _ _ => followers_ends ?_ fun _ => .refl s, fun _ => .refl s⟩
  rw [ends_get]
  exact steady_compoundIf _ _ (steady_renameWithin name _ c)

theorem steady_setSharedWithin (a : SharedAttribute) (depth : Nat) : ∀ (c : ColumnId) (s : Schema),
    (setSharedWithin a depth c).Steady s := by
  induction depth with
  | zero => exact fun _ s => .refl s
  | succ depth ih =>
      intro c s
      unfold setSharedWithin Steady
      simp only [ends_bind, ends_column, ends_change, ends_raise]
      refine ⟨fun col _ => ?_, fun _ => .refl s⟩
      have hwritten : s.KeepsSwitches ((s.changeColumn c a.write).raise
          (.propertyChanged (.column c) a.property (a.read col) (a.read (a.write col)))) :=
        (keepsSwitches_changeColumn c _ s).raise _
      split
      · rw [ends_bind]
        refine followers_ends ?_ fun _ => hwritten
        exact (steady_forM ih _).mono (fun _ _ h => hwritten.trans h) fun _ _ h => hwritten.trans h
      · exact hwritten

theorem steady_setShared (a : SharedAttribute) (c : ColumnId) : (setShared a c).Steady s := by
  unfold setShared Steady
  simp only [ends_bind, ends_discard, ends_column]
  refine ⟨fun _ _ => followers_ends ?_ fun _ => .refl s, fun _ => .refl s⟩
  rw [ends_get]
  exact steady_compoundIf _ _ (steady_setSharedWithin a _ c)

theorem steady_moveColumn (c : ColumnId) (index : Nat) : (moveColumn c index).Steady s := by
  refine ends_moveColumn (Q := fun s' => s.KeepsSwitches s') (.refl s) fun t tbl i _ _ _ _ => ?_
  have htaken : KeepsSwitches s ((s.changeTable t fun tbl =>
      { tbl with columns := tbl.columns.eraseIdx i }).raise (.childRemoved (.table t) (.column c) i)) :=
    .of_changeTable (SameObjects.raise _ _) fun _ => rfl
  have hmoved : KeepsSwitches s (s.relocated t c i index) :=
    htaken.trans (.of_changeTable (SameObjects.raise _ _) fun _ => rfl)
  have hnormalized : ∀ s', Reranks (s.relocated t c i index) s' → s.KeepsSwitches s' :=
    fun s' h => hmoved.trans h.sameFrame.keepsSwitches
  exact ⟨hmoved, (normalizeKey_reranks t none _).mono (fun _ => hnormalized) fun _ => hnormalized⟩

end Edit

namespace Op

open Schema

variable {s s' : Schema} {op : Op}

/-- Whether an operation sets a switch of a table for good. -/
def isToggle : Op → Bool
  | setSecondaryChangeMode _ _ | setMagicEnabled _ _ => true
  | _ => false

/-- The numbers given out to tables never go back. -/
theorem lastTable_perform (hs : s.Sound) (op : Op) : s.lastTable ≤ (op.perform s).2.lastTable :=
  (Moment.issues_after (m := ⟨s, []⟩) hs (.edit op)).issued (.table ⟨s.lastTable⟩) (Nat.le_refl _)

/-- Attaching puts the child into the mode and takes it out again, also when catching up is refused. -/
theorem steady_attachRelationship (hs : s.Sound) (r : RelationshipId) (p ch : TableId) (auto : Bool) :
    (attachRelationship r p ch auto).edit.Steady s := by
  have hlast : s.lastTable ≤ ((attachRelationship r p ch auto).edit.perform s).2.lastTable :=
    lastTable_perform hs _
  have hstart := (sameObjects_attachStart r s).keepsSwitches
  have hcloses : ∀ s₁ : Schema, KeepsSwitches s₁ (s₁.signal .compoundEditEnded) := fun s₁ =>
    (SameObjects.signal _ s₁).keepsSwitches
  have hends : (attachRelationship r p ch auto).edit.Ends
      (fun _ s' => ∃ s₁, Attaches r p ch auto (s.attachStart r) s₁ ∧ s' = s₁.signal .compoundEditEnded)
      (fun _ s' => s.Untouched s' ∨ ∃ s₁, AttachHalts r p ch auto (s.attachStart r) s₁ ∧
        s' = s₁.signal .compoundEditEnded) s := by
    unfold edit
    rw [Edit.ends_map]
    exact (Edit.attachRelationship_ends hs r p ch auto).mono (fun _ _ h => h.2)
      fun _ _ h => h.imp And.right And.right
  apply hends.performed.mono
  · rintro _ s' ⟨⟨s₁, hattaches, rfl⟩, heq⟩
    rw [← heq] at hlast
    have hlast₁ : (s.attachStart r).lastTable ≤ s₁.lastTable := hlast
    have hwired : KeepsSwitches (s.attachStart r) s₁ := by
      refine .of_wires hattaches.wires hlast₁ (hattaches.settles.imp_right fun h => ?_)
      exact ⟨h.1, h.2.sameFrame hattaches.wires.sound⟩
    exact (hstart.trans hwired).trans (hcloses s₁)
  · rintro _ s' ⟨huntouched | ⟨s₁, hhalts, rfl⟩, heq⟩
    · exact huntouched.keepsSwitches
    · rw [← heq] at hlast
      have hlast₁ : (s.attachStart r).lastTable ≤ s₁.lastTable := hlast
      have hwired : KeepsSwitches (s.attachStart r) s₁ :=
        .of_wires hhalts.wires hlast₁ (.inr ⟨hhalts.outside, hhalts.halts.frame⟩)
      exact (hstart.trans hwired).trans (hcloses s₁)

/-- Every operation that is no toggle keeps the switches, whatever it ends in. -/
theorem steady_edit (hs : s.Sound) (hop : op.isToggle = false) : op.edit.Steady s := by
  unfold edit
  cases op
  case setSecondaryChangeMode t on => exact Bool.noConfusion hop
  case setMagicEnabled t on => exact Bool.noConfusion hop
  case attachRelationship r p ch auto => exact steady_attachRelationship hs r p ch auto
  all_goals apply (Edit.steady_map _ _).mpr
  -- tables
  case addTable tbl =>
    apply (Edit.addTable_ends tbl s).atomic.steady
    rintro _ rfl
    exact keepsSwitches_appendTable tbl s
  case removeTable t =>
    refine (Edit.removeTable_atomic hs t).steady fun s' h => h.keepsSwitches fun s₁ s₂ ho h₁ => ?_
    exact h₁.keepsSwitches (hs.of_sameObjects ho)
  case setTableName | setTablePhysicalName | setTableRemarks =>
    exact Edit.steady_describeTable _ _ _ fun _ => rfl
  -- columns
  case addColumn t col =>
    apply (Edit.addColumn_atomic hs t col).steady
    rintro s' ⟨i, h⟩
    exact h.keepsSwitches fun _ _ _ h₁ => (sameFrame_of_inserts h₁).keepsSwitches
  case insertColumn t i col =>
    refine (Edit.insertColumn_atomic hs t i col).steady fun s' h => h.keepsSwitches fun _ _ _ h₁ => ?_
    exact (sameFrame_of_inserts h₁).keepsSwitches
  case removeColumn c =>
    refine (Edit.removeColumn_atomic hs c).steady fun s' h => h.2.2.keepsSwitches fun _ _ ho h₁ => ?_
    exact ((hs.of_sameObjects ho).prune h₁).2.frame.keepsSwitches
  case moveColumn c index => exact Edit.steady_moveColumn c index
  case setColumnName c name => exact Edit.steady_setColumnName c name
  case setDataType | setPrecision | setScale | setNullable => exact Edit.steady_setShared _ _
  case setColumnPhysicalName | setDefaultValue | setColumnRemarks | setAutoIncrement =>
    exact Edit.steady_describeColumn _ _ _ _
  case setPrimaryKeySeq c rank =>
    cases rank with
    | none =>
        refine (Edit.setPrimaryKeySeq_none_atomic hs c).steady fun s' h =>
          h.2.keepsSwitches fun _ _ ho h₁ => ?_
        exact ((hs.of_sameObjects ho).prune h₁).2.frame.keepsSwitches
    | some k =>
        refine (Edit.setPrimaryKeySeq_some_atomic hs c k).steady fun s' h =>
          h.2.keepsSwitches fun _ _ _ h₁ => ?_
        exact (sameFrame_of_places h₁).keepsSwitches
  case normalizePrimaryKey t =>
    apply (Edit.normalizePrimaryKey_atomic hs t).steady
    rintro _ rfl
    exact (reranks_normalizeKey t none s).sameFrame.keepsSwitches
  -- relationships
  case createRelationship rel =>
    apply (Edit.createRelationship_atomic s rel).steady
    rintro _ ⟨-, -, rfl⟩
    exact .of_tables (replaces_storeRelationship _ s).tables
      (Nat.le_of_eq (replaces_storeRelationship _ s).lastTable.symm)
  case setParent r t =>
    apply (Edit.setParent_atomic s r t).steady
    rintro _ ⟨-, -, -, rfl⟩
    exact (keepsSwitches_changeRelationship r _ s).raise _
  case setChild r t =>
    apply (Edit.setChild_atomic s r t).steady
    rintro _ ⟨-, -, -, rfl⟩
    exact (keepsSwitches_changeRelationship r _ s).raise _
  case addExportedKey t r =>
    apply (Edit.addExportedKey_atomic s t r).steady
    rintro _ ⟨-, ⟨-, rfl⟩ | ⟨-, -, rfl⟩⟩
    · exact .refl _
    · exact (reregisters_registerExported t r s).keepsSwitches
  case addImportedKey t r =>
    apply (Edit.addImportedKey_atomic s t r).steady
    rintro _ ⟨-, ⟨-, rfl⟩ | ⟨-, -, rfl⟩⟩
    · exact .refl _
    · exact (reregisters_registerImported t r s).keepsSwitches
  case removeExportedKey t r =>
    apply (Edit.removeExportedKey_atomic hs t r).steady
    rintro s' (⟨-, h⟩ | ⟨-, rfl⟩)
    · exact h.keepsSwitches fun _ _ ho h₁ =>
        coversDismissal_keepsSwitches.detaches (hs.of_sameObjects ho) h₁
    · exact (reregisters_deregisterExported r s).keepsSwitches
  case removeImportedKey t r =>
    apply (Edit.removeImportedKey_atomic hs t r).steady
    rintro s' (⟨-, h⟩ | ⟨-, rfl⟩)
    · exact h.keepsSwitches fun _ _ ho h₁ =>
        coversDismissal_keepsSwitches.detaches (hs.of_sameObjects ho) h₁
    · exact (reregisters_deregisterImported r s).keepsSwitches
  case removeRelationship r =>
    apply (Edit.removeRelationship_atomic hs r).steady
    rintro s' (⟨-, h⟩ | ⟨-, rfl⟩)
    · exact h.keepsSwitches fun _ _ ho h₁ =>
        coversDismissal_keepsSwitches.detaches (hs.of_sameObjects ho) h₁
    · exact coversDismissal_keepsSwitches.discard hs r
  case addMapping r pk fk =>
    refine (Edit.addMapping_atomic hs r pk fk).steady fun s' h => h.keepsSwitches fun _ _ _ h₁ => ?_
    exact (sameFrame_of_maps h₁).keepsSwitches
  case removeMapping r pk =>
    exact (Edit.removeMapping_atomic s r pk).steady fun s' h => h.sameFrame.keepsSwitches
  case mapPrimaryKeyColumn r pk =>
    refine (Edit.mapPrimaryKeyColumn_atomic hs r pk).steady fun s' h =>
      h.2.2.2.2.keepsSwitches fun _ _ _ h₁ => ?_
    exact (sameFrame_of_grow h₁).keepsSwitches
  case setIdentifying r new =>
    refine (Edit.setIdentifying_atomic hs r new).steady fun s' h =>
      h.2.keepsSwitches fun _ _ ho h₁ => ?_
    exact h₁.keepsSwitches (hs.of_sameObjects ho)
  all_goals exact Edit.steady_describeRelationship _ _ _ _

end Op

end KeyedSchema
