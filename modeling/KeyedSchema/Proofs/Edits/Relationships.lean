import KeyedSchema.Proofs.Edits.Columns
import KeyedSchema.Proofs.Registration

/-!
# Relationships — edits of relationships and mappings

Each edit is atomic, and what it does is said by an equation or by a relation: `Detaches` for a
live relationship that is removed, `Maps` for a new mapping, `Marks` for the identifying flag. Each
of them keeps a schema sound.
-/

namespace KeyedSchema

namespace Schema

variable {s s' : Schema} {t : TableId} {c pk fk : ColumnId} {r : RelationshipId}

/-! ## Removing -/

/-- Whether a live relationship is removed: it is unlinked, the columns that it mapped are looked
after, and it leaves the schema. -/
def Detaches (r : RelationshipId) (s s' : Schema) : Prop :=
  ∃ (fks : List ColumnId) (s₁ : Schema), (∀ fk, fk ∈ fks ↔ fk ∈ (s.mappingsOf r).map Mapping.fk) ∧
    WorksOff Prune.step (fks.map .check) (s.unlink r) s₁ ∧ s' = s₁.dropRelationship r

theorem Detaches.sound (h : Detaches r s s') (hs : s.Sound) : s'.Sound := by
  obtain ⟨fks, s₁, -, hw, rfl⟩ := h
  have hu := hs.unlinked r
  obtain ⟨hs₁, hsh⟩ := hu.sound.prune hw
  refine hs₁.dropRelationship (fun t => ?_) fun t => ?_
  · rw [hsh.frame.exportsOf]
    exact hu.notMem_exportsOf t
  · rw [hsh.frame.importsOf]
    exact hu.notMem_importsOf t

/-- Taking a relationship out without looking after its columns. -/
theorem Sound.discard (hs : s.Sound) (r : RelationshipId) :
    ((s.unlink r).dropRelationship r).Sound :=
  (hs.unlinked r).sound.dropRelationship (hs.unlinked r).notMem_exportsOf
    (hs.unlinked r).notMem_importsOf

/-! ## Mapping -/

/-- What is left to do about the child column of a new mapping: in an identifying relationship it
joins the key, unless it is there already. -/
def joining (s : Schema) (r : RelationshipId) (fk : ColumnId) : List Grow :=
  if s.isIdentifying r && !s.isKey fk then [.promote s.tables.size fk] else []

theorem eq_of_mem_joining {task : Grow} (h : task ∈ s.joining r fk) :
    task = .promote s.tables.size fk := by
  unfold joining at h
  split at h
  · exact List.mem_singleton.mp h
  · exact absurd h List.not_mem_nil

theorem ready_joining {m : Mapping} (hfk : s.columns.contains fk = true) :
    ∀ task ∈ s.joining r fk, task.Ready (s.appendMapping r m) := by
  intro task ht
  rw [eq_of_mem_joining ht, Grow.ready_promote, columns_appendMapping]
  exact hfk

/-- Whether a relationship gets a mapping of a key column of its parent to a column of its child:
the child column may have to join the child's key, and the mappings may have to be ordered. -/
structure Maps (r : RelationshipId) (pk fk : ColumnId) (s s' : Schema) : Prop where
  ends : ∃ p ch, s.parent? r = some p ∧ s.child? r = some ch ∧ s.owner? pk = some p ∧
    s.owner? fk = some ch
  isKey : s.isKey pk = true
  unmapped : pk ∉ (s.mappingsOf r).map Mapping.pk
  worksOff : ∃ s₁, WorksOff Grow.step (s.joining r fk) (s.appendMapping r ⟨pk, fk⟩) s₁ ∧
    (s' = s₁.syncMappingOrder r ∨ s' = s₁ ∧ ∀ p, s.parent? r = some p →
      (s.isLive r && s.cascades p) = false)

theorem Maps.sound (h : Maps r pk fk s s') (hs : s.Sound) : s'.Sound := by
  obtain ⟨p, ch, hp, hch, hpk, hfk⟩ := h.ends
  obtain ⟨s₁, hw, hs'⟩ := h.worksOff
  have happ := hs.appendMapping (m := ⟨pk, fk⟩) hp hch hpk hfk h.unmapped
  obtain ⟨hs₁, -⟩ := happ.grow (ready_joining (contains_of_owner? hfk)) hw
  rcases hs' with rfl | ⟨rfl, -⟩
  · exact (reranks_syncMappingOrder r s₁).sound hs₁
  · exact hs₁

/-! ## The identifying flag -/

/-- Set the identifying flag and tell of it. -/
def markIdentifying (r : RelationshipId) (old new : Bool) (s : Schema) : Schema :=
  (s.changeRelationship r fun rel => { rel with identifying := new }).raise
    (.propertyChanged (.relationship r) .identifying (.bool old) (.bool new))

/-- Whether the identifying flag of a relationship is set, with what follows for the keys. -/
inductive Marks (r : RelationshipId) (new : Bool) (s : Schema) : Schema → Prop
  | plain (h : s.isIdentifying r = new ∨ s.isLive r = false) :
      Marks r new s (s.markIdentifying r (s.isIdentifying r) new)
  | tightens {s' : Schema} (hnew : new = true) (hold : s.isIdentifying r = false)
      (hlive : s.isLive r = true)
      (worksOff : WorksOff Grow.step
        (((s.mappingsOf r).map Mapping.fk).map (.promote s.tables.size))
        (s.markIdentifying r false true) s') : Marks r new s s'
  | loosens {s' : Schema} (hnew : new = false) (hold : s.isIdentifying r = true)
      (hlive : s.isLive r = true)
      (worksOff : WorksOff Prune.step (((s.mappingsOf r).map Mapping.fk).map (.loosen r))
        (s.markIdentifying r true false) s') : Marks r new s s'

theorem markIdentifying_objects (r : RelationshipId) (old new : Bool) (s : Schema) :
    SameObjects (s.changeRelationship r fun rel => { rel with identifying := new })
      (s.markIdentifying r old new) := SameObjects.raise _ _

theorem isIdentifying_markIdentifying (r r' : RelationshipId) (old new : Bool) (s : Schema) :
    (s.markIdentifying r old new).isIdentifying r' =
      if r' = r then s.relationships.contains r && new else s.isIdentifying r' := by
  unfold isIdentifying Roster.contains
  rw [get?_changeRelationship (markIdentifying_objects r old new s)]
  split
  · cases s.relationships.get? r <;> simp
  · rfl

theorem mappingsOf_markIdentifying (r r' : RelationshipId) (old new : Bool) (s : Schema) :
    (s.markIdentifying r old new).mappingsOf r' = s.mappingsOf r' := by
  unfold mappingsOf
  rw [(markIdentifying_objects r old new s).relationships]
  exact mappingsOf_changeRelationship r r' s fun _ => rfl

theorem sameShape_markIdentifying (r : RelationshipId) (old new : Bool) (s : Schema) :
    SameShape s (s.markIdentifying r old new) := by
  refine .trans ?_ (markIdentifying_objects r old new s).sameShape
  exact sameShape_changeRelationship r s (fun _ => rfl) (fun _ => rfl) fun _ => rfl

theorem columns_markIdentifying (r : RelationshipId) (old new : Bool) (s : Schema) :
    (s.markIdentifying r old new).columns = s.columns := (markIdentifying_objects r old new s).columns

theorem isKey_markIdentifying (r : RelationshipId) (old new : Bool) (s : Schema) (c : ColumnId) :
    (s.markIdentifying r old new).isKey c = s.isKey c :=
  isKey_of_columns (columns_markIdentifying r old new s) c

theorem cascades_markIdentifying (r : RelationshipId) (old new : Bool) (s : Schema) (t : TableId) :
    (s.markIdentifying r old new).cascades t = s.cascades t := by
  unfold cascades
  rw [(markIdentifying_objects r old new s).tables]
  rfl

/-- The columns that a relationship maps can be promoted once it is marked. -/
theorem Sound.ready_marked (hs : s.Sound) (r : RelationshipId) (old new : Bool) :
    ∀ task ∈ ((s.mappingsOf r).map Mapping.fk).map (Grow.promote s.tables.size),
      task.Ready (s.markIdentifying r old new) := by
  intro task htask
  obtain ⟨fk, hfk, rfl⟩ := List.mem_map.mp htask
  obtain ⟨m, hm, rfl⟩ := List.mem_map.mp hfk
  rw [Grow.ready_promote, columns_markIdentifying]
  exact hs.fk_stored hm

theorem Marks.sound {new : Bool} (h : Marks r new s s') (hs : s.Sound) : s'.Sound := by
  cases h with
  | plain _ => exact hs.of_sameShape (sameShape_markIdentifying ..)
  | tightens _ _ _ hw =>
      exact ((hs.of_sameShape (sameShape_markIdentifying ..)).grow (hs.ready_marked r _ _) hw).1
  | loosens _ _ _ hw => exact ((hs.of_sameShape (sameShape_markIdentifying ..)).prune hw).1

end Schema

namespace Edit

open Schema

variable {s : Schema} {t : TableId} {c pk fk : ColumnId} {r : RelationshipId}

/-! ## Creating and connecting -/

/-- A check that a table, if one is given, is in the schema. -/
theorem ends_checkTable (t : Option TableId) {Q : Unit → Schema → Prop}
    {E : EditError → Schema → Prop} (hQ : (∀ u, t = some u → s.tables.contains u = true) → Q () s)
    (hE : ∀ e, E e s) : (t.toList.forM fun t => discard (table t)).Ends Q E s := by
  cases t with
  | none => exact hQ fun _ h => by simp at h
  | some u =>
      simp only [Option.toList_some, ends_forM_cons, ends_discard, ends_table, ends_forM_nil]
      refine ⟨fun tbl htbl => hQ fun u' hu' => ?_, fun _ => hE _⟩
      obtain rfl := Option.some.inj hu'
      exact Roster.contains_of_get? htbl

theorem ends_refuseCycle (r : RelationshipId) (identifying : Bool) (p ch : Option TableId)
    {Q : Unit → Schema → Prop} {E : EditError → Schema → Prop} :
    (refuseCycle r identifying p ch).Ends Q E s ↔
      ((identifying && s.endsCloseCycle r p ch) = false → Q () s) ∧
        ((identifying && s.endsCloseCycle r p ch) = true → E (.identifyingCycle r) s) := by
  unfold refuseCycle
  simp only [ends_bind, ends_get]
  cases h : identifying && s.endsCloseCycle r p ch <;> simp

/-- A new relationship gets the next number; one that is refused may use it up. -/
theorem createRelationship_ends (s : Schema) (rel : Relationship) :
    (createRelationship rel).Ends (fun r s' => r = ⟨s.lastRelationship + 1⟩ ∧
      (∀ t, rel.parent = some t → s.tables.contains t = true) ∧
      (∀ t, rel.child = some t → s.tables.contains t = true) ∧
      s' = s.storeRelationship { rel with mappings := [] }) (fun _ s' => s.Untouched s') s := by
  unfold createRelationship
  simp only [ends_bind]
  refine ends_checkTable rel.parent (fun hp => ?_) fun _ => .refl s
  refine ends_checkTable rel.child (fun hch => ?_) fun _ => .refl s
  simp only [ends_change, ends_ask, ends_refuseCycle, ends_pure]
  exact ⟨fun _ => ⟨trivial, hp, hch, rfl⟩, fun _ => ⟨rfl, Nat.le_refl _, Nat.le_refl _, Nat.le_succ _⟩⟩

theorem createRelationship_atomic (s : Schema) (rel : Relationship) :
    (createRelationship rel).Atomic (fun _ s' =>
      (∀ t, rel.parent = some t → s.tables.contains t = true) ∧
      (∀ t, rel.child = some t → s.tables.contains t = true) ∧
      s' = s.storeRelationship { rel with mappings := [] }) s :=
  (createRelationship_ends s rel).imp fun _ _ h => h.2

/-- A relationship without ends closes no circle, so it is never refused. -/
theorem createRelationship_detached (s : Schema) {rel : Relationship} (hp : rel.parent = none)
    (hch : rel.child = none) : (createRelationship rel).Ends (fun r s' =>
      r = ⟨s.lastRelationship + 1⟩ ∧ s' = s.storeRelationship { rel with mappings := [] })
      (fun _ _ => False) s := by
  unfold createRelationship
  simp only [hp, hch, Option.toList_none, ends_bind, ends_forM_nil, ends_change, ends_ask,
    ends_refuseCycle, ends_pure]
  exact ⟨fun _ => ⟨trivial, rfl⟩, fun hcycle => by simp [endsCloseCycle] at hcycle⟩

/-- The check that the ends of a relationship may change. -/
theorem ends_checkEndsMutable (r : RelationshipId) (t : Option TableId)
    {Q : Relationship → Schema → Prop} {E : EditError → Schema → Prop}
    (hQ : ∀ rel, s.relationships.get? r = some rel → rel.mappings = [] →
      s.isRegistered r = false → (∀ u, t = some u → s.tables.contains u = true) → Q rel s)
    (hE : ∀ e, E e s) : (checkEndsMutable r t).Ends Q E s := by
  unfold checkEndsMutable
  simp only [ends_bind, ends_relationship, ends_get]
  refine ⟨fun rel hrel => ?_, fun _ => hE _⟩
  split
  · exact hE _
  · rename_i h
    simp only [Bool.or_eq_true, Bool.not_eq_true', not_or, Bool.not_eq_true] at h
    rw [ends_bind]
    refine ends_checkTable t (fun ht => hQ rel hrel ?_ h.2 ht) hE
    simpa using h.1

theorem setParent_atomic (s : Schema) (r : RelationshipId) (t : Option TableId) :
    (setParent r t).Atomic (fun _ s' => s.isRegistered r = false ∧ s.mappingsOf r = [] ∧
      (∀ u, t = some u → s.tables.contains u = true) ∧ s' = s.changeParent r (s.parent? r) t) s := by
  unfold setParent Atomic
  rw [ends_bind]
  refine ends_checkEndsMutable r t (fun rel hrel hm hreg ht => ?_) fun _ => .refl s
  simp only [ends_bind, ends_refuseCycle, ends_change]
  refine ⟨fun _ => ⟨hreg, by simp [mappingsOf, hrel, hm], ht, ?_⟩, fun _ => .refl s⟩
  simp [parent?, hrel]

theorem setChild_atomic (s : Schema) (r : RelationshipId) (t : Option TableId) :
    (setChild r t).Atomic (fun _ s' => s.isRegistered r = false ∧ s.mappingsOf r = [] ∧
      (∀ u, t = some u → s.tables.contains u = true) ∧ s' = s.changeChild r (s.child? r) t) s := by
  unfold setChild Atomic
  rw [ends_bind]
  refine ends_checkEndsMutable r t (fun rel hrel hm hreg ht => ?_) fun _ => .refl s
  simp only [ends_bind, ends_refuseCycle, ends_change]
  refine ⟨fun _ => ⟨hreg, by simp [mappingsOf, hrel, hm], ht, ?_⟩, fun _ => .refl s⟩
  simp [child?, hrel]

/-! ## Registering -/

/-- Registering leads to a registration if there is none yet and no circle is closed. -/
theorem addExportedKey_atomic (s : Schema) (t : TableId) (r : RelationshipId) :
    (addExportedKey t r).Atomic (fun _ s' => s.parent? r = some t ∧
      ((r ∈ s.exportsOf t ∧ s' = s) ∨ (r ∉ s.exportsOf t ∧
        (s.isIdentifying r && s.endsCloseCycle r (some t) (s.child? r)) = false ∧
        s' = s.registerExported t r))) s := by
  unfold addExportedKey Atomic
  simp only [ends_bind, ends_table, ends_relationship]
  refine ⟨fun tbl htbl => ⟨fun rel hrel => ?_, fun _ => .refl s⟩, fun _ => .refl s⟩
  have hexp : s.exportsOf t = tbl.exportedKeys := by simp [exportsOf, htbl]
  have hid : s.isIdentifying r = rel.identifying := by simp [isIdentifying, hrel]
  have hch : s.child? r = rel.child := by simp [child?, hrel]
  split
  · exact Untouched.refl s
  · rename_i hp
    have hp : rel.parent = some t := not_not.mp hp
    have hp' : s.parent? r = some t := by simp [parent?, hrel, hp]
    split
    · rename_i hr
      simp only [ends_bind, ends_refuseCycle, ends_change, and_true]
      refine ⟨fun h => ⟨hp', .inr ⟨hexp ▸ hr, ?_⟩⟩, fun _ => .refl s⟩
      rw [hid, hch, ← hp]
      exact h
    · rename_i hr
      exact ⟨hp', .inl ⟨hexp ▸ not_not.mp hr, rfl⟩⟩

theorem addImportedKey_atomic (s : Schema) (t : TableId) (r : RelationshipId) :
    (addImportedKey t r).Atomic (fun _ s' => s.child? r = some t ∧
      ((r ∈ s.importsOf t ∧ s' = s) ∨ (r ∉ s.importsOf t ∧
        (s.isIdentifying r && s.endsCloseCycle r (s.parent? r) (some t)) = false ∧
        s' = s.registerImported t r))) s := by
  unfold addImportedKey Atomic
  simp only [ends_bind, ends_table, ends_relationship]
  refine ⟨fun tbl htbl => ⟨fun rel hrel => ?_, fun _ => .refl s⟩, fun _ => .refl s⟩
  have himp : s.importsOf t = tbl.importedKeys := by simp [importsOf, htbl]
  have hid : s.isIdentifying r = rel.identifying := by simp [isIdentifying, hrel]
  have hpar : s.parent? r = rel.parent := by simp [parent?, hrel]
  split
  · exact Untouched.refl s
  · rename_i hch
    have hch : rel.child = some t := not_not.mp hch
    have hch' : s.child? r = some t := by simp [child?, hrel, hch]
    split
    · rename_i hr
      simp only [ends_bind, ends_refuseCycle, ends_change, and_true]
      refine ⟨fun h => ⟨hch', .inr ⟨himp ▸ hr, ?_⟩⟩, fun _ => .refl s⟩
      rw [hid, hpar, ← hch]
      exact h
    · rename_i hr
      exact ⟨hch', .inl ⟨himp ▸ not_not.mp hr, rfl⟩⟩

/-! ## Removing -/

theorem eraseRelationship_ends (hr : s.relationships.contains r = true) :
    (eraseRelationship r).Ends (fun _ s' => s' = s.dropRelationship r) (fun _ _ => False) s := by
  obtain ⟨rel, hrel⟩ := (Roster.contains_iff _ _).mp hr
  unfold eraseRelationship
  simp only [ends_bind, ends_relationship_of hrel]
  exact rfl

/-- Removing a live relationship never fails. -/
theorem detachCascade_ends (hs : s.Sound) (hl : s.isLive r = true) :
    (detachCascade r).Ends (fun _ s' => Detaches r s s') (fun _ _ => False) s := by
  obtain ⟨p, ch, hp, -⟩ := isLive_iff.mp hl
  obtain ⟨rel, hrel⟩ := (Roster.contains_iff _ _).mp (contains_of_parent? hp)
  have hm : s.mappingsOf r = rel.mappings := by simp [mappingsOf, hrel]
  have hrel₁ : ((s.deregisterExported r).deregisterImported r).relationships.get? r = some rel :=
    (reregisters_deregister r s).relationships ▸ hrel
  have hu := hs.unlinked r
  unfold detachCascade
  simp only [ends_bind, ends_get, hl, Bool.not_true, Bool.false_eq_true, if_false, ends_change,
    ends_relationship_of hrel₁]
  refine (Ends.forM_worksOff Prune.step Prune.check
    (P := fun s₁ => s₁.Sound ∧ SameFrame (s.unlink r) s₁) (fun fk _ s₁ h₁ => ?_)
    ⟨hu.sound, .refl _⟩).imp fun _ s₁ h₁ => ?_
  · obtain ⟨hs₁, hf⟩ := h₁
    refine (removeOrphan_worksOff hs₁ fk).imp fun _ s₂ h₂ => ⟨h₂, ?_⟩
    obtain ⟨hs₂, hsh⟩ := hs₁.prune h₂
    exact ⟨hs₂, hf.trans hsh.frame⟩
  · obtain ⟨hw, hs₁, hf⟩ := h₁
    have hr₁ : s₁.relationships.contains r = true := by
      rw [hf.contains_relationship, ← Roster.mem_keys_iff, hu.relationshipKeys, Roster.mem_keys_iff]
      exact contains_of_parent? hp
    refine (eraseRelationship_ends hr₁).imp fun _ s' h => ⟨_, s₁, ?_, hw, h⟩
    intro fk
    simp [hm]

/-- Removing a relationship that is not live looks after no column. -/
theorem discardRelationship_ends (hs : s.Sound) (hr : s.relationships.contains r = true) :
    (discardRelationship r).Ends (fun _ s' => s' = (s.unlink r).dropRelationship r)
      (fun _ _ => False) s := by
  obtain ⟨rel, hrel⟩ := (Roster.contains_iff _ _).mp hr
  unfold discardRelationship
  simp only [ends_bind, ends_discard, ends_relationship_of hrel, ends_change]
  refine eraseRelationship_ends (s := s.unlink r) ?_
  rw [← Roster.mem_keys_iff, (hs.unlinked r).relationshipKeys, Roster.mem_keys_iff]
  exact hr

theorem detach_ends (hs : s.Sound) (hl : s.isLive r = true) :
    (detach r).Ends (fun _ s' => AmidEvents (Detaches r) s s') (fun _ _ => False) s := by
  obtain ⟨p, ch, hp, -⟩ := isLive_iff.mp hl
  obtain ⟨rel, hrel⟩ := (Roster.contains_iff _ _).mp (contains_of_parent? hp)
  unfold detach
  simp only [ends_bind, ends_relationship_of hrel]
  exact ends_compound_amid _ fun s₁ h₁ => detachCascade_ends (hs.of_sameObjects h₁)
    ((h₁.sameShape.isLive r).trans hl)

theorem removeExportedKey_atomic (hs : s.Sound) (t : TableId) (r : RelationshipId) :
    (removeExportedKey t r).Atomic (fun _ s' =>
      (s.isLive r = true ∧ AmidEvents (Detaches r) s s') ∨
        (s.isLive r = false ∧ s' = s.deregisterExported r)) s := by
  unfold removeExportedKey Atomic
  simp only [ends_bind, ends_table]
  refine ⟨fun tbl htbl => ?_, fun _ => .refl s⟩
  split
  · exact Untouched.refl s
  · rename_i hr
    obtain ⟨rel, hrel, -⟩ := hs.relationship_of_export
      (mem_exportsOf.mpr ⟨tbl, htbl, not_not.mp hr⟩)
    simp only [ends_bind, ends_get]
    cases hl : s.isLive r with
    | true =>
        simp only [if_true, ends_bind, ends_pure]
        exact (detach_ends hs hl).total fun _ s' h => .inl ⟨trivial, h⟩
    | false =>
        simp only [Bool.false_eq_true, if_false, ends_bind, ends_discard,
          ends_relationship_of hrel]
        exact .inr ⟨trivial, rfl⟩

theorem removeImportedKey_atomic (hs : s.Sound) (t : TableId) (r : RelationshipId) :
    (removeImportedKey t r).Atomic (fun _ s' =>
      (s.isLive r = true ∧ AmidEvents (Detaches r) s s') ∨
        (s.isLive r = false ∧ s' = s.deregisterImported r)) s := by
  unfold removeImportedKey Atomic
  simp only [ends_bind, ends_table]
  refine ⟨fun tbl htbl => ?_, fun _ => .refl s⟩
  split
  · exact Untouched.refl s
  · rename_i hr
    have hch := hs.imported t r (mem_importsOf.mpr ⟨tbl, htbl, not_not.mp hr⟩)
    obtain ⟨rel, hrel⟩ := (Roster.contains_iff _ _).mp (contains_of_child? hch)
    simp only [ends_bind, ends_get]
    cases hl : s.isLive r with
    | true =>
        simp only [if_true, ends_bind, ends_pure]
        exact (detach_ends hs hl).total fun _ s' h => .inl ⟨trivial, h⟩
    | false =>
        simp only [Bool.false_eq_true, if_false, ends_bind, ends_discard,
          ends_relationship_of hrel]
        exact .inr ⟨trivial, rfl⟩

theorem removeRelationship_atomic (hs : s.Sound) (r : RelationshipId) :
    (removeRelationship r).Atomic (fun _ s' =>
      (s.isLive r = true ∧ AmidEvents (Detaches r) s s') ∨
        (s.isLive r = false ∧ s' = (s.unlink r).dropRelationship r)) s := by
  unfold removeRelationship Atomic
  simp only [ends_bind, ends_discard, ends_relationship, ends_get]
  refine ⟨fun rel hrel => ?_, fun _ => .refl s⟩
  cases hl : s.isLive r with
  | true => exact (detach_ends hs hl).total fun _ s' h => .inl ⟨rfl, h⟩
  | false =>
      exact (discardRelationship_ends hs (Roster.contains_of_get? hrel)).total
        fun _ s' h => .inr ⟨rfl, h⟩

/-! ## Mapping -/

theorem ends_requireKeyColumn (t : TableId) (c : ColumnId) {Q : Column → Schema → Prop}
    {E : EditError → Schema → Prop}
    (hQ : ∀ col, s.columns.get? c = some col → s.owner? c = some t → s.isKey c = true → Q col s)
    (hE : ∀ e, E e s) : (requireKeyColumn t c).Ends Q E s := by
  unfold requireKeyColumn
  simp only [ends_bind, ends_column]
  refine ⟨fun col hcol => ?_, fun _ => hE _⟩
  split
  · exact hE _
  · rename_i ht
    split
    · exact hE _
    · rename_i hk
      refine hQ col hcol ((owner?_of_get? hcol).trans (not_not.mp ht)) ?_
      rw [isKey_of_get? hcol]
      simpa using hk

/-- After a mapping, the mappings of a live relationship are brought into key order if its parent
cascades. -/
theorem orderMappings_ends {p : TableId} (hs : s.Sound) (hpk : s.owner? pk = some p) :
    (ownerOf pk >>= fun t => get >>= fun s => if s.isLive r = true then
      table t >>= fun tbl => if tbl.cascades = true then syncMappingOrder r
        else pure () else pure ()).Ends
      (fun _ s' => s' = s.syncMappingOrder r ∨ s' = s ∧ (s.isLive r && s.cascades p) = false)
      (fun _ _ => False) s := by
  obtain ⟨tbl, htbl⟩ := hs.table_of_owner hpk
  have hcasc : s.cascades p = tbl.cascades := by simp [cascades, htbl]
  simp only [ends_bind, ends_ownerOf_of hpk, ends_get]
  cases hl : s.isLive r with
  | false => exact .inr ⟨rfl, rfl⟩
  | true =>
      simp only [if_true, ends_bind, ends_table_of htbl]
      cases hx : tbl.cascades with
      | false => exact .inr ⟨rfl, hcasc.trans hx⟩
      | true =>
          -- a live relationship is stored
          obtain ⟨p', -, hp', -⟩ := isLive_iff.mp hl
          rw [if_pos rfl, ends_syncMappingOrder_of (contains_of_parent? hp')]
          exact .inl rfl

/-- Appending a mapping never fails, once its columns have been checked. -/
theorem pushMapping_ends (hs : s.Sound) {p ch : TableId} (hp : s.parent? r = some p)
    (hch : s.child? r = some ch) (hpk : s.owner? pk = some p) (hfk : s.owner? fk = some ch)
    (hkey : s.isKey pk = true) (hnew : pk ∉ (s.mappingsOf r).map Mapping.pk) :
    (pushMapping r ⟨pk, fk⟩ (s.isIdentifying r && !s.isKey fk)).Ends
      (fun _ s' => Maps r pk fk s s') (fun _ _ => False) s := by
  obtain ⟨rel, hrel⟩ := (Roster.contains_iff _ _).mp (contains_of_parent? hp)
  have hs₀ := hs.appendMapping (m := ⟨pk, fk⟩) hp hch hpk hfk hnew
  have hf₀ := sameFrame_appendMapping r ⟨pk, fk⟩ s
  have hfk₀ : (s.appendMapping r ⟨pk, fk⟩).columns.contains fk = true := by
    rw [columns_appendMapping]
    exact contains_of_owner? hfk
  -- the mapping is in place and the child column where it belongs; only the order is left
  have hrest : ∀ s₁, WorksOff Grow.step (s.joining r fk) (s.appendMapping r ⟨pk, fk⟩) s₁ →
      (ownerOf pk >>= fun t => get >>= fun s => if s.isLive r = true then
        table t >>= fun tbl => if tbl.cascades = true then syncMappingOrder r
          else pure () else pure ()).Ends (fun _ s' => Maps r pk fk s s') (fun _ _ => False) s₁ := by
    intro s₁ hw
    obtain ⟨hs₁, hg⟩ := hs₀.grow (ready_joining (contains_of_owner? hfk)) hw
    have hf₁ := hf₀.trans hg.frame
    have hpk₁ : s₁.owner? pk = some p := by
      rw [hg.owner? (by rw [columns_appendMapping]; exact contains_of_owner? hpk),
        owner?_appendMapping, hpk]
    refine (orderMappings_ends hs₁ hpk₁).imp fun _ s' h => ?_
    refine ⟨⟨p, ch, hp, hch, hpk, hfk⟩, hkey, hnew, s₁, hw, h.imp_right ?_⟩
    rintro ⟨rfl, hno⟩
    refine ⟨rfl, fun p' hp' => ?_⟩
    rw [hp] at hp'
    obtain rfl := Option.some.inj hp'
    rwa [hf₁.isLive, hf₁.cascades] at hno
  unfold pushMapping
  simp only [ends_bind, ends_discard, ends_relationship_of hrel, ends_change]
  unfold joining at hrest
  cases hjoin : s.isIdentifying r && !s.isKey fk with
  | false =>
      rw [hjoin] at hrest
      simp only [Bool.false_eq_true, if_false] at hrest ⊢
      exact hrest _ (.done _)
  | true =>
      rw [hjoin] at hrest
      simp only [if_true, ends_bind] at hrest ⊢
      exact (promotes_promote s _ fk hs₀ hf₀ hfk₀).imp fun _ s₁ hw => hrest s₁ hw

theorem addMapping_atomic (hs : s.Sound) (r : RelationshipId) (pk fk : ColumnId) :
    (addMapping r pk fk).Atomic (fun _ s' => AmidEvents (Maps r pk fk) s s') s := by
  unfold addMapping Atomic
  simp only [ends_bind, ends_relationship]
  refine ⟨fun rel hrel => ?_, fun _ => .refl s⟩
  split
  · rename_i p ch hp hch
    have hp' : s.parent? r = some p := by simp [parent?, hrel, hp]
    have hch' : s.child? r = some ch := by simp [child?, hrel, hch]
    simp only [ends_bind, ends_discard]
    refine ends_requireKeyColumn p pk (fun key hkey hpk hk => ?_) fun _ => .refl s
    simp only [ends_column]
    refine ⟨fun col hcol => ?_, fun _ => .refl s⟩
    split
    · exact Untouched.refl s
    · rename_i hfk
      have hfk' : s.owner? fk = some ch := (owner?_of_get? hcol).trans (not_not.mp hfk)
      split
      · exact Untouched.refl s
      · rename_i hnew
        have hnew' : pk ∉ (s.mappingsOf r).map Mapping.pk := by
          simpa [mappingsOf, hrel, Relationship.mapsFrom] using hnew
        simp only [ends_bind, ends_ask]
        refine (ends_compoundIf_amid _ _ fun s₁ h₁ => ?_).atomic
        obtain ⟨held, raised, published, origins, rfl⟩ := h₁.exists_eq
        have hjoin : (rel.identifying && !col.isKey) = (s.isIdentifying r && !s.isKey fk) := by
          rw [isKey_of_get? hcol]
          simp [isIdentifying, hrel]
        rw [hjoin]
        exact pushMapping_ends (hs.of_sameObjects h₁) hp' hch' hpk hfk' hk hnew'
  · exact Untouched.refl s

/-- A key column of the parent and a column of the child are mapped, unless the key column is mapped
already. -/
theorem ends_addMapping {p ch : TableId} (hp : s.parent? r = some p) (hch : s.child? r = some ch)
    (hpk : s.owner? pk = some p) (hkey : s.isKey pk = true) (hfk : s.owner? fk = some ch)
    {Q : Unit → Schema → Prop} {E : EditError → Schema → Prop} :
    (addMapping r pk fk).Ends Q E s ↔
      if pk ∈ (s.mappingsOf r).map Mapping.pk then E (.duplicateMapping r pk) s
      else (compoundIf ((s.isIdentifying r && !s.isKey fk) && s.hasKeyDependents ch) "add mapping"
        (pushMapping r ⟨pk, fk⟩ (s.isIdentifying r && !s.isKey fk))).Ends Q E s := by
  obtain ⟨rel, hrel, hrelp⟩ := Option.bind_eq_some_iff.mp hp
  have hrelch : rel.child = some ch := by simpa [child?, hrel] using hch
  obtain ⟨key, hpkcol, hpktable⟩ := Option.bind_eq_some_iff.mp hpk
  obtain ⟨col, hfkcol, hfktable⟩ := Option.bind_eq_some_iff.mp hfk
  have hiskey : key.isKey = true := (isKey_of_get? hpkcol).symm.trans hkey
  unfold addMapping requireKeyColumn
  simp only [ends_bind, ends_relationship_of hrel, hrelp, hrelch, ends_discard,
    ends_column_of hpkcol, hpktable, hiskey, ends_column_of hfkcol, hfktable, ne_eq,
    not_true_eq_false, if_false, Bool.not_true, Bool.false_eq_true, ends_pure]
  have hmaps : rel.mapsFrom pk = true ↔ pk ∈ (s.mappingsOf r).map Mapping.pk := by
    simp [mappingsOf, hrel, Relationship.mapsFrom]
  have hid : s.isIdentifying r = rel.identifying := by simp [isIdentifying, hrel]
  rw [hid, isKey_of_get? hfkcol]
  split
  · rename_i hmapped
    rw [if_pos (hmaps.mp hmapped), ends_bind, ends_throw]
  · rename_i hnew
    rw [if_neg fun h => hnew (hmaps.mpr h), ends_bind, ends_ask]

theorem addMapping_ends (hs : s.Sound) {p ch : TableId} (hp : s.parent? r = some p)
    (hch : s.child? r = some ch) (hpk : s.owner? pk = some p) (hkey : s.isKey pk = true)
    (hfk : s.owner? fk = some ch) (hnew : pk ∉ (s.mappingsOf r).map Mapping.pk) :
    (addMapping r pk fk).Ends (fun _ s' => AmidEvents (Maps r pk fk) s s') (fun _ _ => False) s := by
  rw [ends_addMapping hp hch hpk hkey hfk, if_neg hnew]
  refine ends_compoundIf_amid _ _ fun s₁ h₁ => ?_
  obtain ⟨held, raised, published, origins, rfl⟩ := h₁.exists_eq
  exact pushMapping_ends (hs.of_sameObjects h₁) hp hch hpk hfk hkey hnew

theorem removeMapping_atomic (s : Schema) (r : RelationshipId) (pk : ColumnId) :
    (removeMapping r pk).Atomic (fun _ s' => Unmaps s s') s := by
  unfold removeMapping Atomic
  simp only [ends_bind, ends_relationship]
  refine ⟨fun rel hrel => ?_, fun _ => .refl s⟩
  split
  · rename_i i m _ _
    exact unmaps_removeMappingAt r m i s
  · exact Unmaps.refl s

theorem mapPrimaryKeyColumn_atomic (hs : s.Sound) (r : RelationshipId) (pk : ColumnId) :
    (mapPrimaryKeyColumn r pk).Atomic (fun _ s' => s.isLive r = true ∧ s.isKey pk = true ∧
      (Grow.map s.tables.size r pk).Ready s ∧ pk ∉ (s.mappingsOf r).map Mapping.pk ∧
      AmidEvents (WorksOff Grow.step [.map s.tables.size r pk]) s s') s := by
  unfold mapPrimaryKeyColumn Atomic
  simp only [ends_bind, ends_relationship, ends_get]
  refine ⟨fun rel hrel => ?_, fun _ => .refl s⟩
  cases hl : s.isLive r with
  | false => exact Untouched.refl s
  | true =>
      obtain ⟨p, ch, hp, hch, -⟩ := isLive_iff.mp hl
      have hrelp : rel.parent = some p := by simpa [parent?, hrel] using hp
      simp only [Bool.not_true, Bool.false_eq_true, if_false, ends_bind, hrelp, ends_require_some]
      refine ends_requireKeyColumn p pk (fun key hkey hpk hk => ?_) fun _ => .refl s
      split
      · exact Untouched.refl s
      · rename_i hnew
        have hnew' : pk ∉ (s.mappingsOf r).map Mapping.pk := by
          simpa [mappingsOf, hrel, Relationship.mapsFrom] using hnew
        have hready : (Grow.map s.tables.size r pk).Ready s := ⟨p, ch, hp, hch, hpk⟩
        refine (ends_compound_amid (R := fun _ => WorksOff Grow.step [.map s.tables.size r pk]) _
          fun s₁ h₁ => ?_).total fun _ s' h => ⟨trivial, hk, hready, hnew', h⟩
        obtain ⟨held, raised, published, origins, rfl⟩ := h₁.exists_eq
        exact (adoptOrCreate_worksOff (promotes_promote s) (hs.of_sameObjects h₁) h₁.sameFrame
          hready hnew').imp fun _ _ h => h.2

/-! ## The identifying flag -/

/-- The mapped columns of a relationship that has become identifying join the key of the child. -/
theorem forM_tighten_ends (hs : s.Sound) {fks : List ColumnId}
    (hstored : ∀ fk ∈ fks, s.columns.contains fk = true) :
    (fks.forM fun fk => get >>= fun s : Schema =>
      if s.columns.contains fk = true then promote fk else pure ()).Ends
      (fun _ s' => WorksOff Grow.step (fks.map (.promote s.tables.size)) s s')
      (fun _ _ => False) s := by
  refine (Ends.forM_worksOff Grow.step (Grow.promote s.tables.size)
    (P := fun s₁ => s₁.Sound ∧ Grows s s₁) (fun fk hfk s₁ h₁ => ?_) ⟨hs, .refl s⟩).imp
    fun _ _ h => h.1
  obtain ⟨hs₁, hg₁⟩ := h₁
  have hfk₁ := hg₁.contains (hstored fk hfk)
  simp only [ends_bind, ends_get, hfk₁, if_true]
  refine (promotes_promote s s₁ fk hs₁ hg₁.frame hfk₁).imp fun _ s₂ h₂ => ⟨h₂, ?_⟩
  obtain ⟨hs₂, hg₂⟩ := hs₁.grow (by simpa using hfk₁) h₂
  exact ⟨hs₂, hg₁.trans hg₂⟩

/-- The mapped columns of a relationship that is no longer identifying leave the key of the child,
unless they are gone or another relationship holds them there. -/
theorem forM_loosen_ends (hs : s.Sound) (r : RelationshipId) (fks : List ColumnId) :
    (fks.forM fun fk => get >>= fun s : Schema =>
      if s.columns.contains fk = true then
        if (!s.isHeldInKey fk r) = true then setRank promote fk none else pure ()
      else pure ()).Ends
      (fun _ s' => WorksOff Prune.step (fks.map (.loosen r)) s s') (fun _ _ => False) s := by
  refine (Ends.forM_worksOff Prune.step (Prune.loosen r) (P := Sound)
    (fun fk _ s₁ hs₁ => ?_) hs).imp fun _ _ h => h.1
  simp only [ends_bind, ends_get]
  -- whichever check fails, nothing is left to do
  have hskip : (s₁.columns.contains fk && !s₁.isHeldInKey fk r) = false →
      WorksOff Prune.step [.loosen r fk] s₁ s₁ := by
    intro h
    refine .task ?_
    simpa [Prune.step, h] using WorksOff.done s₁
  cases hc : s₁.columns.contains fk with
  | false => exact ⟨hskip (by simp [hc]), hs₁⟩
  | true =>
      cases hh : s₁.isHeldInKey fk r with
      | true => exact ⟨hskip (by simp [hh]), hs₁⟩
      | false =>
          refine (setRank_none_worksOff promote hs₁ hc).imp fun _ s₂ h₂ => ?_
          refine ⟨.task ?_, (hs₁.prune h₂).1⟩
          simpa [Prune.step, hc, hh] using h₂

theorem setIdentifyingCascade_ends (hs : s.Sound) (hr : s.relationships.contains r = true)
    (new : Bool) :
    (setIdentifyingCascade r new).Ends (fun _ s' => Marks r new s s') (fun _ _ => False) s := by
  obtain ⟨rel, hrel⟩ := (Roster.contains_iff _ _).mp hr
  have hid : s.isIdentifying r = rel.identifying := by simp [isIdentifying, hrel]
  -- the schema with the new flag
  have hshape := sameShape_markIdentifying r rel.identifying new s
  have hs₁ := hs.of_sameShape hshape
  obtain ⟨rel₁, hrel₁⟩ := (Roster.contains_iff _ _).mp ((hshape.contains_relationship r).trans hr)
  have hm₁ : rel₁.mappings = s.mappingsOf r := by
    rw [← mappingsOf_markIdentifying r r rel.identifying new s]
    simp [mappingsOf, hrel₁]
  unfold setIdentifyingCascade
  simp only [ends_bind, ends_relationship_of hrel, ends_change, ends_raise, ends_get]
  change (if (decide (rel.identifying ≠ new) &&
    (s.markIdentifying r rel.identifying new).isLive r) = true then _ else _ : Edit Unit).Ends _ _
    (s.markIdentifying r rel.identifying new)
  rw [hshape.isLive]
  split
  · rename_i hcond
    obtain ⟨hne, hl⟩ := Bool.and_eq_true_iff.mp hcond
    have hne : rel.identifying ≠ new := of_decide_eq_true hne
    simp only [ends_bind, ends_relationship_of hrel₁, hm₁]
    cases new with
    | true =>
        have hold : rel.identifying = false := by simpa using hne
        rw [hold] at hs₁ ⊢
        refine (forM_tighten_ends hs₁ fun fk hfk => ?_).imp
          fun _ s' h => .tightens rfl (hid.trans hold) hl ?_
        · obtain ⟨m, hm, rfl⟩ := List.mem_map.mp hfk
          rw [columns_markIdentifying]
          exact hs.fk_stored hm
        · have hsize : (s.markIdentifying r false true).tables.size = s.tables.size := by
            rw [(markIdentifying_objects r false true s).tables]
            rfl
          rw [hsize] at h
          exact h
    | false =>
        have hold : rel.identifying = true := by simpa using hne
        rw [hold] at hs₁ ⊢
        exact (forM_loosen_ends hs₁ r _).imp fun _ s' h => .loosens rfl (hid.trans hold) hl h
  · rename_i hcond
    rw [← hid]
    refine .plain ?_
    rw [hid]
    simpa [Classical.or_iff_not_imp_left] using hcond

theorem setIdentifying_atomic (hs : s.Sound) (r : RelationshipId) (new : Bool) :
    (setIdentifying r new).Atomic (fun _ s' =>
      (new && !s.isIdentifying r && s.endsCloseCycle r (s.parent? r) (s.child? r)) = false ∧
        AmidEvents (Marks r new) s s') s := by
  unfold setIdentifying Atomic
  simp only [ends_bind, ends_relationship, ends_refuseCycle, ends_ask]
  refine ⟨fun rel hrel => ⟨fun hcycle => ?_, fun _ => .refl s⟩, fun _ => .refl s⟩
  have hid : s.isIdentifying r = rel.identifying := by simp [isIdentifying, hrel]
  have hp : s.parent? r = rel.parent := by simp [parent?, hrel]
  have hch : s.child? r = rel.child := by simp [child?, hrel]
  refine (ends_compoundIf_amid _ _ fun s₁ h₁ => setIdentifyingCascade_ends (hs.of_sameObjects h₁)
    (h₁.relationships ▸ Roster.contains_of_get? hrel) new).total fun _ s' h => ⟨?_, h⟩
  rw [hid, hp, hch]
  exact hcycle

end Edit

end KeyedSchema
