import KeyedSchema.Proofs.Changes

/-!
# Passing — every edit is a series of single changes

One lemma for each edit, in the order in which edits are built on each other; none asks anything of
the schema. Two operations are left out, since no cascade does what they do: moving a column within
its table and creating a relationship. `Op.moved?` names the relationship that an operation gives
another child.
-/

namespace KeyedSchema

/-- What is told of a shared attribute is what the column has got. -/
theorem SharedAttribute.update?_write (a : SharedAttribute) (col : Column) :
    col.update? a.property (a.read col) (a.read (a.write col)) = some (a.write col) := by
  cases a <;> exact if_pos rfl

namespace Edit

open Schema

variable {α : Type} {moved : Option (RelationshipId × Option TableId)}

/-! ## Key order, and followers -/

theorem passes_syncMappingOrder (r : RelationshipId) (s : Schema) :
    (syncMappingOrder r).Passes moved s := by
  unfold syncMappingOrder
  simp only [passes_bind_discard, passes_bind_relationship]
  exact fun rel _ => passes_change (Change.syncMappingOrder r).changes

theorem passes_normalizeKey (t : TableId) (placed : Option ColumnId) (s : Schema) :
    (normalizeKey t placed).Passes moved s := by
  unfold normalizeKey
  simp only [passes_bind_discard, passes_bind_table]
  intro tbl _
  refine passes_bind_change ?_ ?_
  · exact (Change.renumber t placed).changes
  · rw [passes_bind_ask]
    exact passes_forM passes_syncMappingOrder _

theorem passes_followers (c : ColumnId) (s : Schema) : (followers c).Passes moved s := by
  unfold followers
  rw [passes_bind_column]
  intro col _
  split
  · exact passes_pure _
  · split
    · simp only [passes_bind_discard, passes_bind_table]
      exact fun tbl _ => passes_ask _ s
    · exact passes_pure _

/-! ## Columns and relationships that go -/

theorem passes_removeIfOrphaned {remove : ColumnId → Edit Column}
    (h : ∀ c s, (remove c).Passes moved s) (c : ColumnId) (s : Schema) :
    (removeIfOrphaned remove c).Passes moved s := by
  unfold removeIfOrphaned
  rw [passes_bind_get]
  split
  · exact (passes_discard _).mpr (h c s)
  · exact passes_pure ()

theorem passes_removeColumnWithin (depth : Nat) (c : ColumnId) (s : Schema) :
    (removeColumnWithin depth c).Passes moved s := by
  induction depth generalizing c s with
  | zero => exact passes_throw _
  | succ depth ih =>
      unfold removeColumnWithin
      simp only [passes_bind_ownerOf, passes_bind_table, passes_bind_require, passes_bind_column]
      intro t ht tbl htbl i hi removed _
      apply passes_bind_change (Change.dropColumn ht htbl hi).changes
      rw [passes_bind_ask]
      apply passes_bind_change (changes_unmapColumn c _)
      refine Passes.bind (passes_forM (passes_removeIfOrphaned ih) _) fun _ s₁ => ?_
      split
      · rw [passes_bind_table]
        intro tbl _
        split
        · exact Passes.bind (passes_normalizeKey t none s₁) fun _ _ => passes_pure _
        · exact passes_pure _
      · exact passes_pure _

theorem passes_removeColumnCascade (c : ColumnId) (s : Schema) :
    (removeColumnCascade c).Passes moved s := by
  unfold removeColumnCascade
  rw [passes_bind_get]
  exact passes_removeColumnWithin _ c s

theorem passes_removeOrphan (c : ColumnId) (s : Schema) : (removeOrphan c).Passes moved s :=
  passes_removeIfOrphaned passes_removeColumnCascade c s

theorem passes_eraseRelationship (r : RelationshipId) (s : Schema) :
    (eraseRelationship r).Passes moved s := by
  unfold eraseRelationship
  rw [passes_bind_relationship]
  intro rel hrel
  exact passes_bind_change (Change.eraseRelationship hrel).changes (passes_pure rel)

theorem passes_detachCascade (r : RelationshipId) (s : Schema) : (detachCascade r).Passes moved s := by
  unfold detachCascade
  rw [passes_bind_get]
  split
  · exact passes_bind_throw _ _
  · apply passes_bind_change (changes_deregisterExported r s)
    apply passes_bind_change (changes_deregisterImported r _)
    rw [passes_bind_relationship]
    intro rel _
    apply passes_bind_change (Change.clearMappings r).changes
    exact Passes.bind (passes_forM passes_removeOrphan _) fun _ s₁ => passes_eraseRelationship r s₁

theorem passes_discardRelationship (r : RelationshipId) (s : Schema) :
    (discardRelationship r).Passes moved s := by
  unfold discardRelationship
  simp only [passes_bind_discard, passes_bind_relationship]
  intro rel _
  apply passes_bind_change (changes_deregisterExported r s)
  apply passes_bind_change (changes_deregisterImported r _)
  apply passes_bind_change (Change.clearMappings r).changes
  exact passes_eraseRelationship r _

/-! ## Columns that join a key or leave it -/

section Promotion

variable {promote : ColumnId → Edit Unit} (hpromote : ∀ c s, (promote c).Passes moved s)
include hpromote

theorem passes_adoptOrCreate (r : RelationshipId) (pk : ColumnId) (s : Schema) :
    (adoptOrCreate promote r pk).Passes moved s := by
  unfold adoptOrCreate placeColumn
  simp only [passes_bind_relationship, passes_bind_require, passes_bind_column, passes_bind_discard,
    passes_bind_table, passes_bind_get]
  intro rel hrel child _ key _ tbl _
  -- what is done with the child column, whichever it is
  have hmap : ∀ fk s₁, s₁.relationships = s.relationships → (do
      change (Schema.appendMapping r ⟨pk, fk⟩)
      if rel.identifying then promote fk
      syncMappingOrder r
      return fk : Edit ColumnId).Passes moved s₁ := by
    intro fk s₁ hsame
    have hsync : ∀ s₂, (syncMappingOrder r >>= fun _ => pure fk : Edit ColumnId).Passes moved s₂ :=
      fun s₂ => Passes.bind (passes_syncMappingOrder r s₂) fun _ _ => passes_pure fk
    apply passes_bind_change (Change.appendMapping (hsame ▸ hrel) ⟨pk, fk⟩).changes
    dsimp only
    split
    · exact Passes.bind (hpromote fk _) fun _ => hsync
    · exact hsync _
  split
  · exact (passes_bind_pure _ _).mpr (hmap _ s rfl)
  · simp only [bind_assoc, passes_bind_ask, passes_bind_discard, passes_bind_table, pure_bind]
    intro tbl htbl
    refine passes_bind_change (Change.placeColumn htbl ?_ _).changes
      (hmap _ _ (placeColumn_objects ..).relationships)
    -- next to the key, or at the end
    have hcols : s.columnsOf child = tbl.columns := by simp [columnsOf, htbl]
    rw [← hcols]
    split
    · exact keyInsertPosition_le s child
    · exact Nat.le_refl _

theorem passes_mapIfMissing (r : RelationshipId) (pk : ColumnId) (s : Schema) :
    (mapIfMissing promote r pk).Passes moved s := by
  unfold mapIfMissing
  rw [passes_bind_relationship]
  intro rel _
  split
  · exact (passes_discard _).mpr (passes_adoptOrCreate hpromote r pk s)
  · exact passes_pure ()

omit hpromote in
theorem passes_unmapDemoted (r : RelationshipId) (pk : ColumnId) (s : Schema) :
    (unmapDemoted r pk).Passes moved s := by
  unfold unmapDemoted
  rw [passes_bind_relationship]
  intro rel hrel
  split
  · rename_i i m _ _
    exact passes_bind_change (Change.removeMappingAt hrel m i).changes (passes_removeOrphan m.fk _)
  · exact passes_pure ()

theorem passes_afterRankChange (c : ColumnId) (old new : Option Nat) (s : Schema) :
    (afterRankChange promote c old new).Passes moved s := by
  unfold afterRankChange
  simp only [passes_bind_ownerOf, passes_bind_table]
  intro t _ tbl _
  split
  · refine Passes.bind (passes_normalizeKey t _ s) fun _ s₁ => ?_
    rw [passes_bind_ask]
    split
    · exact passes_forM (fun r s₁ => passes_mapIfMissing hpromote r c s₁) _
    · exact passes_forM (fun r s₁ => passes_unmapDemoted r c s₁) _
    · exact passes_pure ()
  · exact passes_pure ()

theorem passes_setRank (c : ColumnId) (rank : Option Nat) (s : Schema) :
    (setRank promote c rank).Passes moved s := by
  unfold setRank
  rw [passes_bind_column]
  intro col hcol
  dsimp only
  split
  · exact passes_bind_change (Change.changeRank hcol rank).changes
      (passes_afterRankChange hpromote c _ rank _)
  · exact passes_pure ()

end Promotion

theorem passes_promoteWithin (depth : Nat) (c : ColumnId) (s : Schema) :
    (promoteWithin depth c).Passes moved s := by
  induction depth generalizing c s with
  | zero => exact passes_pure ()
  | succ depth ih =>
      unfold promoteWithin
      rw [passes_bind_column]
      intro col _
      split
      · simp only [passes_bind_ownerOf, passes_bind_discard, passes_bind_table, passes_bind_ask]
        exact fun t _ tbl _ => passes_setRank ih c _ s
      · exact passes_pure ()

theorem passes_promote (c : ColumnId) (s : Schema) : (promote c).Passes moved s := by
  unfold promote
  rw [passes_bind_get]
  exact passes_promoteWithin _ c s

/-! ## Columns -/

theorem passes_insertColumnAt {s : Schema} {t : TableId} {tbl : Table} {i : Nat}
    (htbl : s.tables.get? t = some tbl) (hi : i ≤ tbl.columns.length) (col : Column) :
    (insertColumnAt t i col).Passes moved s := by
  unfold insertColumnAt
  refine Passes.bind ?_ fun c s₁ => ?_
  · unfold placeColumn
    simp only [passes_bind_ask, passes_bind_discard, passes_bind_table]
    intro _ _
    exact passes_bind_change (Change.placeColumn htbl hi col).changes (passes_pure _)
  · split
    · exact Passes.bind (passes_afterRankChange passes_promote c none col.rank s₁)
        fun _ _ => passes_pure c
    · exact passes_pure c

theorem passes_insertColumn (t : TableId) (i : Nat) (col : Column) (s : Schema) :
    (insertColumn t i col).Passes moved s := by
  unfold insertColumn
  rw [passes_bind_table]
  intro tbl htbl
  dsimp only
  split
  · exact passes_bind_throw _ _
  · rename_i hi
    rw [passes_bind_ask]
    unfold compoundIf
    split
    · exact passes_compound_of _
        (passes_insertColumnAt (s := s.signal _) htbl (Nat.le_of_not_lt hi) col)
    · exact passes_insertColumnAt htbl (Nat.le_of_not_lt hi) col

theorem passes_addColumn (t : TableId) (col : Column) (s : Schema) : (addColumn t col).Passes moved s := by
  unfold addColumn
  rw [passes_bind_table]
  exact fun tbl _ => passes_insertColumn t _ col s

theorem passes_removeColumn (c : ColumnId) (s : Schema) : (removeColumn c).Passes moved s := by
  unfold removeColumn
  simp only [passes_bind_ownerOf, passes_bind_discard, passes_bind_table, passes_bind_get]
  intro t _ tbl _
  split
  · exact passes_throw _
  · rw [passes_bind_column]
    exact fun col _ => passes_compoundIf _ _ (passes_removeColumnCascade c)

theorem passes_renameWithin (name : String) (depth : Nat) (c : ColumnId) (s : Schema) :
    (renameWithin name depth c).Passes moved s := by
  induction depth generalizing c s with
  | zero => exact passes_pure ()
  | succ depth ih =>
      unfold renameWithin
      rw [passes_bind_column]
      intro col hcol
      apply passes_bind_change₂ (Change.describeColumn hcol .name (fun col => .text col.name)
        (fun col => { col with name }) (if_pos rfl)).changes
      split
      · refine Passes.bind (passes_followers c _) fun _ _ => passes_forM (fun fk s₁ => ?_) _
        rw [passes_bind_column]
        intro follower _
        split
        · exact ih fk s₁
        · exact passes_pure ()
      · exact passes_pure ()

theorem passes_setColumnName (c : ColumnId) (name : String) (s : Schema) :
    (setColumnName c name).Passes moved s := by
  unfold setColumnName
  simp only [passes_bind_discard, passes_bind_column]
  intro col _
  refine Passes.bind (passes_followers c s) fun _ s₁ => ?_
  rw [passes_bind_get]
  exact passes_compoundIf _ _ (passes_renameWithin name _ c)

theorem passes_setSharedWithin (a : SharedAttribute) (depth : Nat) (c : ColumnId) (s : Schema) :
    (setSharedWithin a depth c).Passes moved s := by
  induction depth generalizing c s with
  | zero => exact passes_pure ()
  | succ depth ih =>
      unfold setSharedWithin
      rw [passes_bind_column]
      intro col hcol
      apply passes_bind_change₂
        (Change.describeColumn hcol a.property a.read a.write (a.update?_write col)).changes
      split
      · exact Passes.bind (passes_followers c _) fun _ _ => passes_forM ih _
      · exact passes_pure ()

theorem passes_setShared (a : SharedAttribute) (c : ColumnId) (s : Schema) :
    (setShared a c).Passes moved s := by
  unfold setShared
  simp only [passes_bind_discard, passes_bind_column]
  intro col _
  refine Passes.bind (passes_followers c s) fun _ s₁ => ?_
  rw [passes_bind_get]
  exact passes_compoundIf _ _ (passes_setSharedWithin a _ c)

theorem passes_describeColumn (c : ColumnId) {property : Property}
    {value : Column → PropertyValue} {f : Column → Column}
    (hf : ∀ col, col.update? property (value col) (value (f col)) = some (f col)) (s : Schema) :
    (describeColumn c property value f).Passes moved s := by
  unfold describeColumn
  rw [passes_bind_column]
  intro col hcol
  exact passes_change_raise (Change.describeColumn hcol property value f (hf col)).changes

theorem passes_setPrimaryKeySeq (c : ColumnId) (rank : Option Nat) (s : Schema) :
    (setPrimaryKeySeq c rank).Passes moved s := by
  unfold setPrimaryKeySeq
  simp only [passes_bind_ownerOf, passes_bind_ask, passes_bind_column]
  exact fun t _ col _ => passes_compoundIf _ _ (passes_setRank passes_promote c rank)

theorem passes_normalizePrimaryKey (t : TableId) (s : Schema) :
    (normalizePrimaryKey t).Passes moved s := by
  unfold normalizePrimaryKey
  simp only [passes_bind_discard, passes_bind_table]
  exact fun tbl _ => passes_normalizeKey t none s

/-! ## Leaving secondary-change mode, and scopes -/

theorem passes_dropStrayMappings (r : RelationshipId) (key : List ColumnId) (rounds : Nat)
    (s : Schema) : (dropStrayMappings r key rounds).Passes moved s := by
  induction rounds generalizing s with
  | zero => exact passes_pure ()
  | succ rounds ih =>
      unfold dropStrayMappings
      rw [passes_bind_relationship]
      intro rel hrel
      split
      · rename_i i m _ _
        apply passes_bind_change (Change.removeMappingAt hrel m i).changes
        exact Passes.bind (passes_removeOrphan m.fk _) fun _ s₁ => ih s₁
      · exact passes_pure ()

theorem passes_reconcileRelationship (key : List ColumnId) (r : RelationshipId) (s : Schema) :
    (reconcileRelationship key r).Passes moved s := by
  unfold reconcileRelationship
  rw [passes_bind_relationship]
  intro rel _
  refine Passes.bind (passes_dropStrayMappings r key _ s) fun _ s₁ => ?_
  refine Passes.bind (passes_forM (passes_mapIfMissing passes_promote r) key) fun _ s₂ => ?_
  exact passes_syncMappingOrder r s₂

theorem passes_reconcileExported (t : TableId) (s : Schema) : (reconcileExported t).Passes moved s := by
  unfold reconcileExported
  simp only [passes_bind_discard, passes_bind_table]
  intro tbl _
  refine Passes.bind (passes_normalizeKey t none s) fun _ s₁ => ?_
  rw [passes_bind_get]
  exact passes_forM (passes_reconcileRelationship _) _

theorem passes_enterSecondaryChange (t : TableId) (hmoved : ∀ r new, moved = some (r, new) → new = some t)
    (s : Schema) : (enterSecondaryChange t).Passes moved s := by
  unfold enterSecondaryChange
  rw [passes_bind_table]
  intro tbl htbl
  split
  · exact passes_pure false
  · rename_i hmode
    exact passes_bind_change (Change.suspend htbl (Bool.eq_false_iff.mpr hmode) hmoved).changes
      (passes_pure true)

theorem passes_exitSecondaryChange (t : TableId) (s : Schema) :
    (exitSecondaryChange t).Passes moved s := by
  unfold exitSecondaryChange
  rw [passes_bind_get]
  split
  · rename_i ht
    exact passes_change (Change.forget ht).changes
  · rename_i tbl htbl
    apply passes_bind_change₂ (Change.resume htbl).changes
    split
    · rw [passes_bind_get]
      split
      · exact passes_compound _ (passes_reconcileExported t)
      · exact passes_pure ()
    · exact passes_pure ()

/-- Opening a scope other than a compound edit. -/
theorem passes_enter {scope : Scope} (hscope : ∀ description, scope ≠ .compound description)
    (hmoved : ∀ t, scope = .secondaryChange t → ∀ r new, moved = some (r, new) → new = some t)
    (s : Schema) : (enter scope).Passes moved s := by
  unfold enter
  cases scope with
  | compound description => exact absurd rfl (hscope description)
  | secondaryChange t =>
      exact Passes.bind (passes_enterSecondaryChange t (hmoved t rfl) s) fun _ _ => passes_pure _
  | magicDisabled t =>
      dsimp only
      rw [passes_bind_table]
      intro tbl _
      exact passes_bind_change (Change.setMagic t false).changes (passes_pure _)

/-- Closing a scope other than a compound edit. -/
theorem passes_leave {opened : OpenScope} (hopened : opened ≠ .compound) (s : Schema) :
    (leave opened).Passes moved s := by
  unfold leave
  cases opened with
  | compound => exact absurd rfl hopened
  | secondaryChange t entered =>
      dsimp only
      split
      · exact passes_exitSecondaryChange t s
      · exact passes_pure ()
  | magicDisabled t previous => exact passes_change (Change.setMagic t previous).changes

theorem passes_within_compound (description : String) {body : Edit α} (h : ∀ s, body.Passes moved s)
    (s : Schema) : (within (.compound description) body).Passes moved s := by
  unfold within enter leave Passes
  simp only [ends_bind, ends_change, ends_pure, ends_attempt, ends_ofOutcome]
  refine (h _).mono (fun a s₁ h₁ => ?_) fun e s₁ h₁ => ?_ 
  all_goals
    have hdone := Changes.compound .refl description h₁
    exact ⟨fun _ _ => hdone, fun _ _ => hdone⟩

theorem passes_within_secondaryChange (t : TableId) {body : Edit α}
    (hmoved : ∀ r new, moved = some (r, new) → new = some t) (h : ∀ s, body.Passes moved s)
    (s : Schema) : (within (.secondaryChange t) body).Passes moved s := by
  unfold within enter
  simp only [bind_assoc, pure_bind]
  refine Passes.bind (passes_enterSecondaryChange t hmoved s) fun entered s₁ => ?_
  refine Passes.bind (passes_attempt (h s₁)) fun outcome s₂ => ?_
  have hopened : OpenScope.secondaryChange t entered ≠ .compound := OpenScope.noConfusion
  exact Passes.bind (passes_attempt (passes_leave hopened s₂)) fun _ _ => passes_ofOutcome _

theorem passes_setSecondaryChangeMode (t : TableId) (on : Bool)
    (hmoved : on = true → ∀ r new, moved = some (r, new) → new = some t) (s : Schema) :
    (setSecondaryChangeMode t on).Passes moved s := by
  unfold setSecondaryChangeMode
  split
  · rename_i hon
    exact (passes_discard _).mpr (passes_enterSecondaryChange t (hmoved hon) s)
  · rw [passes_bind_table]
    intro tbl _
    split
    · exact passes_exitSecondaryChange t s
    · exact passes_pure ()

theorem passes_setMagicEnabled (t : TableId) (on : Bool) (s : Schema) :
    (setMagicEnabled t on).Passes moved s := by
  unfold setMagicEnabled
  simp only [passes_bind_discard, passes_bind_table]
  exact fun tbl _ => passes_change (Change.setMagic t on).changes

/-! ## Relationships -/

theorem passes_refuseCycle (r : RelationshipId) (identifying : Bool) (parent child : Option TableId)
    (s : Schema) : (refuseCycle r identifying parent child).Passes moved s := by
  unfold refuseCycle
  rw [passes_bind_get]
  split
  · exact passes_throw _
  · exact passes_pure ()

/-- A check changes nothing. -/
theorem passes_bind_refuseCycle (r : RelationshipId) (identifying : Bool)
    (parent child : Option TableId) {f : Unit → Edit α} {s : Schema} (h : (f ()).Passes moved s) :
    (refuseCycle r identifying parent child >>= f).Passes moved s := by
  unfold refuseCycle
  rw [bind_assoc, passes_bind_get]
  split
  · exact passes_bind_throw _ _
  · exact (passes_bind_pure _ _).mpr h

/-- The checks change nothing and yield the stored relationship. -/
theorem passes_bind_checkEndsMutable (r : RelationshipId) (t : Option TableId)
    {f : Relationship → Edit α} {s : Schema}
    (h : ∀ rel, s.relationships.get? r = some rel → (f rel).Passes moved s) :
    (checkEndsMutable r t >>= f).Passes moved s := by
  unfold checkEndsMutable
  simp only [bind_assoc, passes_bind_relationship, passes_bind_get]
  intro rel hrel
  split
  · exact passes_bind_throw _ _
  · cases t with
    | none => exact h rel hrel
    | some t =>
        change (((discard (table t) >>= fun _ => (pure () : Edit Unit)) >>= fun _ => pure rel) >>=
          f).Passes moved s
        simp only [bind_assoc, passes_bind_discard, passes_bind_table, pure_bind]
        exact fun tbl _ => h rel hrel

theorem passes_setParent (r : RelationshipId) (t : Option TableId) (s : Schema) :
    (setParent r t).Passes moved s := by
  unfold setParent
  refine passes_bind_checkEndsMutable r t fun rel hrel => ?_
  exact passes_bind_refuseCycle r _ _ _ (passes_change (Change.changeParent hrel t).changes)

theorem passes_setChild (r : RelationshipId) (t : Option TableId) (s : Schema) :
    (setChild r t).Passes (some (r, t)) s := by
  unfold setChild
  refine passes_bind_checkEndsMutable r t fun rel hrel => ?_
  exact passes_bind_refuseCycle r _ _ _ (passes_change (Change.changeChild hrel rfl).changes)

theorem passes_addExportedKey (t : TableId) (r : RelationshipId) (s : Schema) :
    (addExportedKey t r).Passes moved s := by
  unfold addExportedKey
  simp only [passes_bind_table, passes_bind_relationship]
  intro tbl htbl rel _
  split
  · exact passes_bind_throw _ _
  · split
    · apply passes_bind_refuseCycle r
      exact passes_change (Change.registerExported htbl r).changes
    · exact passes_pure ()

theorem passes_addImportedKey (t : TableId) (r : RelationshipId) (s : Schema) :
    (addImportedKey t r).Passes moved s := by
  unfold addImportedKey
  simp only [passes_bind_table, passes_bind_relationship]
  intro tbl htbl rel _
  split
  · exact passes_bind_throw _ _
  · split
    · apply passes_bind_refuseCycle r
      exact passes_change (Change.registerImported htbl r).changes
    · exact passes_pure ()

theorem passes_detach (r : RelationshipId) (s : Schema) : (detach r).Passes moved s := by
  unfold detach
  rw [passes_bind_relationship]
  exact fun rel _ => passes_compound _ (passes_detachCascade r)

theorem passes_removeExportedKey (t : TableId) (r : RelationshipId) (s : Schema) :
    (removeExportedKey t r).Passes moved s := by
  unfold removeExportedKey
  rw [passes_bind_table]
  intro tbl _
  split
  · exact passes_bind_throw _ _
  · rw [passes_bind_get]
    split
    · exact Passes.bind (passes_detach r s) fun _ _ => passes_pure _
    · simp only [passes_bind_discard, passes_bind_relationship]
      exact fun rel _ => passes_bind_change (changes_deregisterExported r s) (passes_pure none)

theorem passes_removeImportedKey (t : TableId) (r : RelationshipId) (s : Schema) :
    (removeImportedKey t r).Passes moved s := by
  unfold removeImportedKey
  rw [passes_bind_table]
  intro tbl _
  split
  · exact passes_bind_throw _ _
  · rw [passes_bind_get]
    split
    · exact Passes.bind (passes_detach r s) fun _ _ => passes_pure _
    · simp only [passes_bind_discard, passes_bind_relationship]
      exact fun rel _ => passes_bind_change (changes_deregisterImported r s) (passes_pure none)

theorem passes_removeRelationship (r : RelationshipId) (s : Schema) :
    (removeRelationship r).Passes moved s := by
  unfold removeRelationship
  simp only [passes_bind_discard, passes_bind_relationship, passes_bind_get]
  intro rel _
  split
  · exact passes_detach r s
  · exact passes_discardRelationship r s

/-! ## Mapping -/

theorem passes_requireKeyColumn (t : TableId) (c : ColumnId) (s : Schema) :
    (requireKeyColumn t c).Passes moved s := by
  unfold requireKeyColumn
  rw [passes_bind_column]
  intro col _
  dsimp only
  split
  · exact passes_bind_throw _ _
  · split
    · exact passes_bind_throw _ _
    · exact passes_pure col

theorem passes_pushMapping (r : RelationshipId) (m : Mapping) (joinKey : Bool) (s : Schema) :
    (pushMapping r m joinKey).Passes moved s := by
  unfold pushMapping
  simp only [passes_bind_discard, passes_bind_relationship]
  intro rel hrel
  -- the mappings are brought into order where the parent's cascades are enabled
  have hsync : ∀ s₁, (do
      let t ← ownerOf m.pk
      if (← get).isLive r then
        if (← table t).cascades then syncMappingOrder r : Edit Unit).Passes moved s₁ := by
    intro s₁
    simp only [passes_bind_ownerOf, passes_bind_get]
    intro t _
    split
    · rw [passes_bind_table]
      intro tbl _
      split
      · exact passes_syncMappingOrder r s₁
      · exact passes_pure ()
    · exact passes_pure ()
  apply passes_bind_change (Change.appendMapping hrel m).changes
  split
  · exact Passes.bind (passes_promote m.fk _) fun _ => hsync
  · exact hsync _

theorem passes_addMapping (r : RelationshipId) (pk fk : ColumnId) (s : Schema) :
    (addMapping r pk fk).Passes moved s := by
  unfold addMapping
  rw [passes_bind_relationship]
  intro rel _
  split
  · rw [passes_bind_discard]
    refine Passes.bind (passes_requireKeyColumn _ pk s) fun _ s₁ => ?_
    rw [passes_bind_column]
    intro col _
    dsimp only
    split
    · exact passes_bind_throw _ _
    · split
      · exact passes_bind_throw _ _
      · rw [passes_bind_ask]
        exact passes_compoundIf _ _ (passes_pushMapping r ⟨pk, fk⟩ _)
  · exact passes_throw _

theorem passes_removeMapping (r : RelationshipId) (pk : ColumnId) (s : Schema) :
    (removeMapping r pk).Passes moved s := by
  unfold removeMapping
  rw [passes_bind_relationship]
  intro rel hrel
  split
  · rename_i i m _ _
    exact passes_bind_change (Change.removeMappingAt hrel m i).changes (passes_pure _)
  · exact passes_pure none

theorem passes_mapPrimaryKeyColumn (r : RelationshipId) (pk : ColumnId) (s : Schema) :
    (mapPrimaryKeyColumn r pk).Passes moved s := by
  unfold mapPrimaryKeyColumn
  simp only [passes_bind_relationship, passes_bind_get]
  intro rel _
  split
  · exact passes_bind_throw _ _
  · rw [passes_bind_require]
    intro parent _
    refine Passes.bind (passes_requireKeyColumn parent pk s) fun key s₁ => ?_
    split
    · exact passes_bind_throw _ _
    · exact passes_compound _ (passes_adoptOrCreate passes_promote r pk)

/-! ## Connecting, and the identifying flag -/

theorem passes_attachSteps (r : RelationshipId) (parent child : TableId) (auto : Bool) (s : Schema) :
    (attachSteps r parent child auto).Passes (some (r, some child)) s := by
  unfold attachSteps
  rw [passes_bind_relationship]
  intro rel hrel
  have hregister : ∀ s₁, (do
      addExportedKey parent r
      addImportedKey child r
      if auto then
        discard (table parent)
        (← get).primaryKey parent |>.forM (mapIfMissing promote r) : Edit Unit).Passes
          (some (r, some child)) s₁ := by
    intro s₁
    refine Passes.bind (passes_addExportedKey parent r s₁) fun _ s₂ => ?_
    refine Passes.bind (passes_addImportedKey child r s₂) fun _ s₃ => ?_
    split
    · simp only [passes_bind_discard, passes_bind_table, passes_bind_get]
      exact fun tbl _ => passes_forM (passes_mapIfMissing passes_promote r) _
    · exact passes_pure ()
  -- the parent may have been changed by then, the child has not
  have hchild : ∀ s₁, (∃ rel₁, s₁.relationships.get? r = some rel₁ ∧ rel₁.child = rel.child) → (do
      if rel.child ≠ some child then change (Schema.changeChild r rel.child (some child))
      addExportedKey parent r
      addImportedKey child r
      if auto then
        discard (table parent)
        (← get).primaryKey parent |>.forM (mapIfMissing promote r) : Edit Unit).Passes
          (some (r, some child)) s₁ := by
    rintro s₁ ⟨rel₁, hrel₁, hsame⟩
    dsimp only
    split
    · rw [← hsame]
      exact passes_bind_change (Change.changeChild hrel₁ rfl).changes (hregister _)
    · exact hregister s₁
  dsimp only
  split
  · refine passes_bind_change (Change.changeParent hrel _).changes (hchild _ ?_)
    refine ⟨{ rel with parent := some parent }, ?_, rfl⟩
    rw [Schema.changeParent, (SameObjects.raise _ _).relationships, changeRelationship,
      Roster.get?_modify, if_pos rfl, hrel]
    rfl
  · exact hchild s ⟨rel, hrel, rfl⟩

theorem passes_attachRelationship (r : RelationshipId) (parent child : TableId) (auto : Bool)
    (s : Schema) : (attachRelationship r parent child auto).Passes (some (r, some child)) s := by
  unfold attachRelationship
  simp only [passes_bind_relationship, passes_bind_discard, passes_bind_table, passes_bind_get]
  intro rel _ p _ ch _
  split
  · exact passes_bind_throw _ _
  · refine passes_bind_refuseCycle r _ _ _ (passes_within_compound _ (fun s₁ => ?_) s)
    refine passes_within_secondaryChange child ?_ (passes_attachSteps r parent child auto) s₁
    rintro _ _ ⟨⟩
    rfl

theorem passes_setIdentifyingCascade (r : RelationshipId) (identifying : Bool) (s : Schema) :
    (setIdentifyingCascade r identifying).Passes moved s := by
  unfold setIdentifyingCascade
  rw [passes_bind_relationship]
  intro rel hrel
  apply passes_bind_change₂ (Change.describeRelationship hrel .identifying
    (fun rel => .bool rel.identifying) (fun rel => { rel with identifying }) (fun _ => rfl)
    (fun rel p hp => by cases p <;> first | rfl | exact absurd rfl hp) fun _ => rfl).changes
  rw [passes_bind_get]
  split
  · rw [passes_bind_relationship]
    intro marked _
    refine passes_forM (fun fk s₁ => ?_) _
    rw [passes_bind_get]
    split
    · split
      · exact passes_promote fk s₁
      · split
        · exact passes_setRank passes_promote fk none s₁
        · exact passes_pure ()
    · exact passes_pure ()
  · exact passes_pure ()

theorem passes_setIdentifying (r : RelationshipId) (identifying : Bool) (s : Schema) :
    (setIdentifying r identifying).Passes moved s := by
  unfold setIdentifying
  rw [passes_bind_relationship]
  intro rel _
  refine Passes.bind (passes_refuseCycle r _ _ _ s) fun _ s₁ => ?_
  rw [passes_bind_ask]
  exact passes_compoundIf _ _ (passes_setIdentifyingCascade r identifying)

theorem passes_describeRelationship (r : RelationshipId) (property : Property)
    (value : Relationship → PropertyValue) (f : Relationship → Relationship)
    (hvalue : ∀ rel, rel.attribute? property = some (value rel))
    (hothers : ∀ rel p, p ≠ property → (f rel).attribute? p = rel.attribute? p)
    (hchild : ∀ rel, (f rel).child = rel.child) (s : Schema) :
    (describeRelationship r property value f).Passes moved s := by
  unfold describeRelationship
  rw [passes_bind_relationship]
  intro rel hrel
  exact passes_change_raise
    (Change.describeRelationship hrel property value f hvalue hothers hchild).changes

/-! ## Tables -/

theorem passes_addTable (tbl : Table) (s : Schema) : (addTable tbl).Passes moved s := by
  unfold addTable
  exact passes_bind_change (Change.appendTable tbl).changes (passes_ask _ _)

theorem passes_removeTableCascade (t : TableId) (s : Schema) : (removeTableCascade t).Passes moved s := by
  unfold removeTableCascade
  rw [passes_bind_ask]
  refine Passes.bind (passes_forM (fun r s₁ => ?_) _) fun _ s₁ => ?_
  · unfold dismissRelationship
    rw [passes_bind_get]
    split
    · split
      · exact (passes_discard _).mpr (passes_detachCascade r s₁)
      · exact (passes_discard _).mpr (passes_discardRelationship r s₁)
    · exact passes_pure ()
  · simp only [passes_bind_discard, passes_bind_table]
    intro tbl htbl
    apply passes_bind_change₂ (Change.resume htbl).changes
    simp only [passes_bind_table, passes_bind_get, passes_bind_require]
    intro last _ i hi
    refine passes_bind_change (Change.eraseTable hi ?_).changes (passes_pure _)
    -- the table has just left the mode
    simp [isHolding, Schema.release, setSecondaryChange, changeTable, htbl]

theorem passes_removeTable (t : TableId) (s : Schema) : (removeTable t).Passes moved s := by
  unfold removeTable
  rw [passes_bind_table]
  exact fun tbl _ => passes_compound _ (passes_removeTableCascade t)

theorem passes_describeTable (t : TableId) (property : Property) (value : Table → PropertyValue)
    {f : Table → Table} (hvalue : ∀ tbl, tbl.attribute? property = some (value tbl))
    (hothers : ∀ tbl p, p ≠ property → (f tbl).attribute? p = tbl.attribute? p)
    (hlists : ∀ tbl, (f tbl).lists = tbl.lists)
    (hmode : ∀ tbl, (f tbl).inSecondaryChange = tbl.inSecondaryChange) (s : Schema) :
    (describeTable t property value f).Passes moved s := by
  unfold describeTable
  rw [passes_bind_table]
  intro tbl htbl
  exact passes_change_raise
    (Change.describeTable htbl property value f hvalue hothers hlists hmode).changes

end Edit

namespace Op

open Edit Schema

/-- The relationship that an operation may give another child, and that child. -/
def moved? : Op → Option (RelationshipId × Option TableId)
  | setChild r t => some (r, t)
  | attachRelationship r _ child _ => some (r, some child)
  | _ => none

/-- Whether `moved` leaves room for the child that an operation gives to a relationship, and for the
table that it puts into secondary-change mode. -/
def Allows (op : Op) (moved : Option (RelationshipId × Option TableId)) : Prop :=
  match op with
  | setChild r t => moved = some (r, t)
  | attachRelationship r _ child _ => moved = some (r, some child)
  | setSecondaryChangeMode t on => on = true → ∀ r new, moved = some (r, new) → new = some t
  | _ => True

theorem allows_moved? (op : Op) : op.Allows op.moved? := by
  cases op <;> simp [Allows, moved?]

/-- An operation is a series of single changes, unless it moves a column or creates a
relationship. -/
theorem passes_edit (op : Op) (hmove : ∀ c index, op ≠ .moveColumn c index)
    (hcreate : ∀ rel, op ≠ .createRelationship rel)
    {moved : Option (RelationshipId × Option TableId)} (hmoved : op.Allows moved) (s : Schema) :
    op.edit.Passes moved s := by
  unfold edit
  cases op <;> rw [passes_map]
  case addTable tbl => exact passes_addTable tbl s
  case removeTable t => exact passes_removeTable t s
  case addColumn t col => exact passes_addColumn t col s
  case insertColumn t index col => exact passes_insertColumn t index col s
  case removeColumn c => exact passes_removeColumn c s
  case moveColumn c index => exact absurd rfl (hmove c index)
  case setColumnName c name => exact passes_setColumnName c name s
  case setDataType | setPrecision | setScale | setNullable => exact passes_setShared _ _ s
  case setPrimaryKeySeq c rank => exact passes_setPrimaryKeySeq c rank s
  case normalizePrimaryKey t => exact passes_normalizePrimaryKey t s
  case createRelationship rel => exact absurd rfl (hcreate rel)
  case setParent r t => exact passes_setParent r t s
  case setChild r t =>
    obtain rfl := hmoved
    exact passes_setChild r t s
  case addExportedKey t r => exact passes_addExportedKey t r s
  case addImportedKey t r => exact passes_addImportedKey t r s
  case removeExportedKey t r => exact passes_removeExportedKey t r s
  case removeImportedKey t r => exact passes_removeImportedKey t r s
  case removeRelationship r => exact passes_removeRelationship r s
  case addMapping r pk fk => exact passes_addMapping r pk fk s
  case removeMapping r pk => exact passes_removeMapping r pk s
  case mapPrimaryKeyColumn r pk => exact passes_mapPrimaryKeyColumn r pk s
  case attachRelationship r parent child auto =>
    obtain rfl := hmoved
    exact passes_attachRelationship r parent child auto s
  case setIdentifying r identifying => exact passes_setIdentifying r identifying s
  case setSecondaryChangeMode t on => exact passes_setSecondaryChangeMode t on hmoved s
  case setMagicEnabled t on => exact passes_setMagicEnabled t on s
  -- the operations that describe one object
  case setTableName | setTablePhysicalName | setTableRemarks =>
    refine passes_describeTable _ _ _ ?_ (fun tbl p hp => ?_) ?_ ?_ s
    case refine_2 => cases p <;> first | rfl | exact absurd rfl hp
    all_goals exact fun _ => rfl
  case setColumnPhysicalName | setDefaultValue | setColumnRemarks =>
    refine passes_describeColumn _ (fun col => ?_) s
    simp [Column.update?, Column.attribute?, Column.withAttribute?]
  case setAutoIncrement =>
    refine passes_describeColumn _ ?_ s
    exact fun col => if_pos rfl
  all_goals
    refine passes_describeRelationship _ _ _ _ ?_ (fun rel p hp => ?_) ?_ s
    case refine_2 => cases p <;> first | rfl | exact absurd rfl hp
    all_goals exact fun _ => rfl

end Op

end KeyedSchema
