import KeyedSchema.Proofs.Graft
import KeyedSchema.Proofs.Outcome
import KeyedSchema.Proofs.Replica
import KeyedSchema.Schema.Op

/-!
# Changes — the single changes that edits are made of

An edit, with all its cascades, is a series of single changes: one object is put in, taken out,
described, connected or disconnected, and the events that tell of it are raised with the change.
`Schema.Change` lists them. What each of them keeps, whole edits keep, refused ones included. A part
of a series may be a compound edit; its two signals come around the part.

Two operations do something that no cascade does: moving a column within its table, and creating a
relationship. They are no part of the list. Two more give a relationship another child, which no
cascade does either; `moved` says which relationship gets which child in a series of changes, if
any does.
-/

namespace KeyedSchema

namespace Schema

variable {moved : Option (RelationshipId × Option TableId)} {s s' s'' : Schema} {t : TableId}
  {c : ColumnId} {r : RelationshipId}

/-! ## Single changes -/

/-- A single change of a schema, together with the events that tell of it. -/
inductive Change (moved : Option (RelationshipId × Option TableId)) (s : Schema) : Schema → Prop
  -- tables
  | appendTable (tbl : Table) : Change moved s (s.appendTable tbl)
  /-- A table goes once nothing is held back for it any more. -/
  | eraseTable {t : TableId} {i : Nat} (hi : s.tables.indexOf? t = some i)
      (hmode : s.isHolding t = false) : Change moved s (s.eraseTable t i)
  | describeTable {t : TableId} {tbl : Table} (htbl : s.tables.get? t = some tbl)
      (property : Property) (value : Table → PropertyValue) (f : Table → Table)
      (hvalue : ∀ tbl, tbl.attribute? property = some (value tbl))
      (hothers : ∀ tbl p, p ≠ property → (f tbl).attribute? p = tbl.attribute? p)
      (hlists : ∀ tbl, (f tbl).lists = tbl.lists)
      (hmode : ∀ tbl, (f tbl).inSecondaryChange = tbl.inSecondaryChange) :
      Change moved s ((s.changeTable t f).raise
        (.propertyChanged (.table t) property (value tbl) (value (f tbl))))
  | setMagic (t : TableId) (on : Bool) : Change moved s (s.setMagic t on)
  /-- The table enters secondary-change mode. While a relationship gets another child, only that
  child does. -/
  | suspend {t : TableId} {tbl : Table} (htbl : s.tables.get? t = some tbl)
      (hmode : tbl.inSecondaryChange = false)
      (hmoved : ∀ r new, moved = some (r, new) → new = some t) :
      Change moved s (s.setSecondaryChange t true)
  /-- The table leaves secondary-change mode, and what was held back is told. -/
  | resume {t : TableId} {tbl : Table} (htbl : s.tables.get? t = some tbl) :
      Change moved s ((s.setSecondaryChange t false).release t)
  | forget {t : TableId} (ht : s.tables.get? t = none) : Change moved s (s.forget t)
  -- columns
  | placeColumn {t : TableId} {tbl : Table} (htbl : s.tables.get? t = some tbl) {i : Nat}
      (hi : i ≤ tbl.columns.length) (col : Column) : Change moved s (s.placeColumn t i col)
  | dropColumn {t : TableId} {tbl : Table} {c : ColumnId} {i : Nat} (hc : s.owner? c = some t)
      (htbl : s.tables.get? t = some tbl) (hi : tbl.columns.idxOf? c = some i) :
      Change moved s (s.dropColumn t i c)
  | describeColumn {c : ColumnId} {col : Column} (hcol : s.columns.get? c = some col)
      (property : Property) (value : Column → PropertyValue) (f : Column → Column)
      (hf : col.update? property (value col) (value (f col)) = some (f col)) :
      Change moved s ((s.changeColumn c f).raise
        (.propertyChanged (.column c) property (value col) (value (f col))))
  | changeRank {c : ColumnId} {col : Column} (hcol : s.columns.get? c = some col)
      (new : Option Nat) : Change moved s (s.changeRank c col.rank new)
  /-- The key of a table is numbered from zero. -/
  | renumber (t : TableId) (placed : Option ColumnId) :
      Change moved s (Schema.renumber 0 (s.keyOrder t placed) s)
  -- relationships
  | eraseRelationship {r : RelationshipId} {rel : Relationship}
      (hrel : s.relationships.get? r = some rel) :
      Change moved s { s with relationships := s.relationships.erase r }
  | describeRelationship {r : RelationshipId} {rel : Relationship}
      (hrel : s.relationships.get? r = some rel) (property : Property)
      (value : Relationship → PropertyValue) (f : Relationship → Relationship)
      (hvalue : ∀ rel, rel.attribute? property = some (value rel))
      (hothers : ∀ rel p, p ≠ property → (f rel).attribute? p = rel.attribute? p)
      (hchild : ∀ rel, (f rel).child = rel.child) : Change moved s ((s.changeRelationship r f).raise
        (.propertyChanged (.relationship r) property (value rel) (value (f rel))))
  | changeParent {r : RelationshipId} {rel : Relationship}
      (hrel : s.relationships.get? r = some rel) (new : Option TableId) :
      Change moved s (s.changeParent r rel.parent new)
  | changeChild {r : RelationshipId} {rel : Relationship} (hrel : s.relationships.get? r = some rel)
      {new : Option TableId} (hmoved : moved = some (r, new)) :
      Change moved s (s.changeChild r rel.child new)
  | registerExported {t : TableId} {tbl : Table} (htbl : s.tables.get? t = some tbl)
      (r : RelationshipId) : Change moved s (s.registerExported t r)
  | registerImported {t : TableId} {tbl : Table} (htbl : s.tables.get? t = some tbl)
      (r : RelationshipId) : Change moved s (s.registerImported t r)
  | deregisterExported {t : TableId} {r : RelationshipId} {i : Nat}
      (hi : (s.exportsOf t).idxOf? r = some i) :
      Change moved s ((s.changeTable t fun tbl =>
        { tbl with exportedKeys := tbl.exportedKeys.eraseIdx i }).raise
          (.childRemoved (.table t) (.exportedKey r) i))
  | deregisterImported {t : TableId} {r : RelationshipId} {i : Nat}
      (hi : (s.importsOf t).idxOf? r = some i) :
      Change moved s ((s.changeTable t fun tbl =>
        { tbl with importedKeys := tbl.importedKeys.eraseIdx i }).raise
          (.childRemoved (.table t) (.importedKey r) i))
  -- mappings
  | appendMapping {r : RelationshipId} {rel : Relationship}
      (hrel : s.relationships.get? r = some rel) (m : Mapping) : Change moved s (s.appendMapping r m)
  | removeMappingAt {r : RelationshipId} {rel : Relationship}
      (hrel : s.relationships.get? r = some rel) (m : Mapping) (i : Nat) :
      Change moved s (s.removeMappingAt r m i)
  | unmapWhere (p : Mapping → Bool) (r : RelationshipId) : Change moved s (s.unmapWhere p r)
  | clearMappings (r : RelationshipId) : Change moved s (s.clearMappings r)
  | syncMappingOrder (r : RelationshipId) : Change moved s (s.syncMappingOrder r)

/-- A series of single changes, parts of which may be compound edits. -/
inductive Changes (moved : Option (RelationshipId × Option TableId)) : Schema → Schema → Prop
  | refl {s : Schema} : Changes moved s s
  | tail {s s' s'' : Schema} (h : Changes moved s s') (hlast : Change moved s' s'') :
      Changes moved s s''
  | compound {s s' s'' : Schema} (h : Changes moved s s') (description : String)
      (hbody : Changes moved (s'.signal (.compoundEditStarted description)) s'') :
      Changes moved s (s''.signal .compoundEditEnded)

theorem Change.changes (h : Change moved s s') : Changes moved s s' := .tail .refl h

theorem Changes.trans (h : Changes moved s s') (h' : Changes moved s' s'') : Changes moved s s'' := by
  induction h' with
  | refl => exact h
  | tail _ hlast ih => exact .tail (ih h) hlast
  | compound _ description hbody ih => exact .compound (ih h) description hbody

theorem changes_foldl {α : Type} {f : Schema → α → Schema} (h : ∀ s a, Changes moved s (f s a))
    (as : List α) (s : Schema) : Changes moved s (as.foldl f s) := by
  induction as generalizing s with
  | nil => exact .refl
  | cons a as ih => exact (h s a).trans (ih _)

theorem changes_unmapColumn (c : ColumnId) (s : Schema) : Changes moved s (s.unmapColumn c) :=
  changes_foldl (fun _ r => (Change.unmapWhere _ r).changes) _ s

theorem changes_deregisterExported (r : RelationshipId) (s : Schema) :
    Changes moved s (s.deregisterExported r) := by
  unfold deregisterExported
  split
  · exact .refl
  · split
    · exact .refl
    · rename_i hi
      exact (Change.deregisterExported hi).changes

theorem changes_deregisterImported (r : RelationshipId) (s : Schema) :
    Changes moved s (s.deregisterImported r) := by
  unfold deregisterImported
  split
  · exact .refl
  · split
    · exact .refl
    · rename_i hi
      exact (Change.deregisterImported hi).changes

end Schema

/-! ## Edits as series of changes -/

namespace Edit

open Schema

variable {α β : Type} {moved : Option (RelationshipId × Option TableId)} {s s' : Schema}

/-- Whether an edit makes nothing but single changes, whatever it ends in. -/
def Passes (x : Edit α) (moved : Option (RelationshipId × Option TableId)) (s : Schema) : Prop :=
  x.Ends (fun _ s' => Changes moved s s') (fun _ s' => Changes moved s s') s

/-- The schema that such an edit leaves behind. -/
theorem Passes.changes {x : Edit α} (h : x.Passes moved s) : Changes moved s (x.perform s).2 :=
  Ends.left h

@[simp] theorem passes_pure (a : α) : (pure a : Edit α).Passes moved s := .refl

@[simp] theorem passes_throw (e : EditError) : (throw e : Edit α).Passes moved s := .refl

theorem passes_ask (g : Schema → α) (s : Schema) : (ask g).Passes moved s := .refl

theorem passes_change {g : Schema → Schema} (h : Changes moved s (g s)) :
    (change g).Passes moved s := h

theorem Passes.bind {x : Edit β} {f : β → Edit α} (hx : x.Passes moved s)
    (hf : ∀ b s', (f b).Passes moved s') : (x >>= f).Passes moved s := by
  unfold Passes
  rw [ends_bind]
  refine hx.mono (fun b s' h => ?_) fun _ _ h => h
  exact (hf b s').mono (fun _ _ h' => h.trans h') fun _ _ h' => h.trans h'

/-- After a change the rest of an edit starts from the changed schema. -/
theorem passes_bind_change {g : Schema → Schema} {f : Unit → Edit α} (h : Changes moved s (g s))
    (hf : (f ()).Passes moved (g s)) : (change g >>= f).Passes moved s := by
  unfold Passes
  rw [ends_bind, ends_change]
  exact hf.mono (fun _ _ h' => h.trans h') fun _ _ h' => h.trans h'

/-- Two changes that are one in the end. -/
theorem passes_bind_change₂ {g g' : Schema → Schema} {f : Unit → Edit α}
    (h : Changes moved s (g' (g s))) (hf : (f ()).Passes moved (g' (g s))) :
    (change g >>= fun _ => change g' >>= f).Passes moved s := by
  unfold Passes
  rw [ends_bind, ends_change, ends_bind, ends_change]
  exact hf.mono (fun _ _ h' => h.trans h') fun _ _ h' => h.trans h'

/-- A change and the event that tells of it, with nothing after them. -/
theorem passes_change_raise {g : Schema → Schema} {e : Event}
    (h : Changes moved s ((g s).raise e)) : (change g >>= fun _ => raise e).Passes moved s := by
  unfold Passes
  rw [ends_bind, ends_change, ends_raise]
  exact h

@[simp] theorem passes_map (f : β → α) (x : Edit β) : (f <$> x).Passes moved s ↔ x.Passes moved s := by
  unfold Passes
  rw [ends_map]

@[simp] theorem passes_discard (x : Edit α) : (discard x).Passes moved s ↔ x.Passes moved s := by
  unfold discard
  exact passes_map _ x

/-! ### Questions -/

@[simp] theorem passes_bind_pure (a : β) (f : β → Edit α) :
    (pure a >>= f).Passes moved s ↔ (f a).Passes moved s := by
  rw [pure_bind]

@[simp] theorem passes_bind_throw (e : EditError) (f : β → Edit α) :
    ((throw e : Edit β) >>= f).Passes moved s := .refl

@[simp] theorem passes_bind_get (f : Schema → Edit α) :
    ((get : Edit Schema) >>= f).Passes moved s ↔ (f s).Passes moved s := by
  unfold Passes
  rw [ends_bind, ends_get]

@[simp] theorem passes_bind_ask (g : Schema → β) (f : β → Edit α) :
    (ask g >>= f).Passes moved s ↔ (f (g s)).Passes moved s := by
  unfold Passes
  rw [ends_bind, ends_ask]

@[simp] theorem passes_bind_discard (x : Edit β) (f : Unit → Edit α) :
    (discard x >>= f).Passes moved s ↔ (x >>= fun _ => f ()).Passes moved s := by
  unfold Passes
  simp only [ends_bind, ends_discard]

@[simp] theorem passes_bind_require (value : Option β) (e : EditError) (f : β → Edit α) :
    (require value e >>= f).Passes moved s ↔ ∀ b, value = some b → (f b).Passes moved s := by
  unfold Passes
  rw [ends_bind, ends_require]
  exact and_iff_left fun _ => .refl

@[simp] theorem passes_bind_table (t : TableId) (f : Table → Edit α) :
    (table t >>= f).Passes moved s ↔ ∀ tbl, s.tables.get? t = some tbl → (f tbl).Passes moved s := by
  unfold Passes
  rw [ends_bind, ends_table]
  exact and_iff_left fun _ => .refl

@[simp] theorem passes_bind_column (c : ColumnId) (f : Column → Edit α) :
    (column c >>= f).Passes moved s ↔ ∀ col, s.columns.get? c = some col → (f col).Passes moved s := by
  unfold Passes
  rw [ends_bind, ends_column]
  exact and_iff_left fun _ => .refl

@[simp] theorem passes_bind_relationship (r : RelationshipId) (f : Relationship → Edit α) :
    (relationship r >>= f).Passes moved s ↔
      ∀ rel, s.relationships.get? r = some rel → (f rel).Passes moved s := by
  unfold Passes
  rw [ends_bind, ends_relationship]
  exact and_iff_left fun _ => .refl

@[simp] theorem passes_bind_ownerOf (c : ColumnId) (f : TableId → Edit α) :
    (ownerOf c >>= f).Passes moved s ↔ ∀ t, s.owner? c = some t → (f t).Passes moved s := by
  unfold Passes
  rw [ends_bind, ends_ownerOf]
  exact and_iff_left fun _ => .refl

/-! ### Compound edits, scopes and loops -/

theorem passes_compound_of (description : String) {x : Edit α}
    (h : x.Passes moved (s.signal (.compoundEditStarted description))) :
    (compound description x).Passes moved s := by
  unfold Passes
  rw [ends_compound]
  exact h.mono (fun _ _ h₁ => .compound .refl description h₁) fun _ _ h₁ =>
    .compound .refl description h₁

theorem passes_compound (description : String) {x : Edit α} (h : ∀ s, x.Passes moved s) :
    (compound description x).Passes moved s := passes_compound_of description (h _)

theorem passes_compoundIf (when : Bool) (description : String) {x : Edit α}
    (h : ∀ s, x.Passes moved s) : (compoundIf when description x).Passes moved s := by
  unfold compoundIf
  split
  · exact passes_compound description h
  · exact h s

theorem passes_attempt {x : Edit α} (h : x.Passes moved s) : (attempt x).Passes moved s := by
  unfold Passes
  rw [ends_attempt]
  exact h

theorem passes_ofOutcome (outcome : Except EditError α) : (ofOutcome outcome).Passes moved s := by
  unfold Passes
  rw [ends_ofOutcome]
  exact ⟨fun _ _ => .refl, fun _ _ => .refl⟩

theorem passes_forM {f : β → Edit Unit} (h : ∀ b s, (f b).Passes moved s) (bs : List β) :
    (bs.forM f).Passes moved s := by
  induction bs generalizing s with
  | nil => exact passes_pure ()
  | cons b bs ih => exact Passes.bind (h b s) fun _ _ => ih

end Edit

end KeyedSchema
