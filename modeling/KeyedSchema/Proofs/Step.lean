import KeyedSchema.Proofs.Edits.Attach
import KeyedSchema.Proofs.Edits.Tables
import KeyedSchema.Schema.Run

/-!
# Step — what one operation does

`Op.Does` says of every public edit what it does when it is carried out, and `Op.Halts` in what two
of them stop halfway; every other refusal leaves the schema untouched. What all edits keep is shown
for these relations, one case for each operation, and does not look into the edits again.
-/

namespace KeyedSchema

namespace Schema

variable {s s' : Schema} {t : TableId}

/-- What events leave alone, and a change keeps, is kept by the change amid events. -/
theorem AmidEvents.preserves {R : Schema → Schema → Prop} {P : Schema → Prop}
    (h : AmidEvents R s s') (hP : P s) (hevents : ∀ s s', SameObjects s s' → P s → P s')
    (hR : ∀ s₁ s₂, SameObjects s s₁ → P s₁ → R s₁ s₂ → P s₂) : P s' := by
  obtain ⟨s₁, s₂, h₁, h, h₂⟩ := h
  exact hevents _ _ h₂ (hR s₁ s₂ h₁ (hevents _ _ h₁ hP) h)

theorem AmidEvents.sound {R : Schema → Schema → Prop} (h : AmidEvents R s s') (hs : s.Sound)
    (hR : ∀ s₁ s₂, SameObjects s s₁ → s₁.Sound → R s₁ s₂ → s₂.Sound) : s'.Sound :=
  h.preserves hs (fun _ _ ho hs => hs.of_sameObjects ho) hR

/-- Moving the numbers on keeps a schema sound. -/
theorem Untouched.sound (h : Untouched s s') (hs : s.Sound) : s'.Sound := by
  obtain ⟨heq, ht, hc, hr⟩ := h
  rw [heq]
  exact { hs with
    table_fresh := fun t h => Nat.le_trans (hs.table_fresh t h) ht
    column_fresh := fun c h => Nat.le_trans (hs.column_fresh c h) hc
    relationship_fresh := fun r h => Nat.le_trans (hs.relationship_fresh r h) hr }

/-- What becomes of a schema when a scope is opened: it is left alone but for events, or the mode or
the magic of a table is set. -/
inductive Switches (s : Schema) : Schema → Prop
  | untouched {s' : Schema} (h : s.Untouched s') : Switches s s'
  | told {s' : Schema} (h : SameObjects s s') : Switches s s'
  | suspended (t : TableId) : Switches s (s.suspended t)
  | magic (t : TableId) (on : Bool) : Switches s (s.setMagic t on)

/-- What becomes of a schema when a scope is closed: the same, or a table leaves the mode and is
caught up with, perhaps halfway only. -/
inductive Closes (s : Schema) : Schema → Prop
  | switches {s' : Schema} (h : Switches s s') : Closes s s'
  | exits {t : TableId} {s' : Schema} (h : Exits t s s') : Closes s s'
  | halts {t : TableId} {s' : Schema} (h : Halts t s s') : Closes s s'

theorem Switches.sound (h : Switches s s') (hs : s.Sound) : s'.Sound := by
  cases h with
  | untouched h => exact h.sound hs
  | told h => exact hs.of_sameObjects h
  | suspended t => exact hs.of_sameShape (sameShape_suspended t s)
  | magic t on => exact hs.of_sameShape (sameShape_setMagic t on s)

theorem Closes.sound (h : Closes s s') (hs : s.Sound) : s'.Sound := by
  cases h with
  | switches h => exact h.sound hs
  | exits h => exact h.sound hs
  | halts h => exact h.sound

end Schema

namespace Op

open Schema

variable {s s' : Schema} {op : Op} {t p ch : TableId} {r : RelationshipId}

/-- What an operation does. -/
def Does (op : Op) (s s' : Schema) : Prop :=
  match op with
  | addTable tbl => s' = s.appendTable tbl
  | removeTable t => AmidEvents (Removes t) s s'
  | addColumn t col => ∃ i, AmidEvents (Inserts t i col) s s'
  | insertColumn t i col => AmidEvents (Inserts t i col) s s'
  | removeColumn c => s.columns.contains c = true ∧ s.isRetained c = false ∧
      AmidEvents (WorksOff Prune.step [.remove c]) s s'
  | moveColumn _ _ => Moves s s'
  | setPrimaryKeySeq c none => s.columns.contains c = true ∧
      AmidEvents (WorksOff Prune.step [.demote c]) s s'
  | setPrimaryKeySeq c (some k) => s.columns.contains c = true ∧ AmidEvents (Places c k) s s'
  | normalizePrimaryKey t => s' = s.normalizeKey t none
  | createRelationship rel => (∀ t, rel.parent = some t → s.tables.contains t = true) ∧
      (∀ t, rel.child = some t → s.tables.contains t = true) ∧
      s' = s.storeRelationship { rel with mappings := [] }
  | setParent r t => s.isRegistered r = false ∧ s.mappingsOf r = [] ∧
      (∀ u, t = some u → s.tables.contains u = true) ∧ s' = s.changeParent r (s.parent? r) t
  | setChild r t => s.isRegistered r = false ∧ s.mappingsOf r = [] ∧
      (∀ u, t = some u → s.tables.contains u = true) ∧ s' = s.changeChild r (s.child? r) t
  | addExportedKey t r => s.parent? r = some t ∧ ((r ∈ s.exportsOf t ∧ s' = s) ∨
      (r ∉ s.exportsOf t ∧ (s.isIdentifying r && s.endsCloseCycle r (some t) (s.child? r)) = false ∧
        s' = s.registerExported t r))
  | addImportedKey t r => s.child? r = some t ∧ ((r ∈ s.importsOf t ∧ s' = s) ∨
      (r ∉ s.importsOf t ∧ (s.isIdentifying r && s.endsCloseCycle r (s.parent? r) (some t)) = false ∧
        s' = s.registerImported t r))
  | removeExportedKey _ r => (s.isLive r = true ∧ AmidEvents (Detaches r) s s') ∨
      (s.isLive r = false ∧ s' = s.deregisterExported r)
  | removeImportedKey _ r => (s.isLive r = true ∧ AmidEvents (Detaches r) s s') ∨
      (s.isLive r = false ∧ s' = s.deregisterImported r)
  | removeRelationship r => (s.isLive r = true ∧ AmidEvents (Detaches r) s s') ∨
      (s.isLive r = false ∧ s' = (s.unlink r).dropRelationship r)
  | addMapping r pk fk => AmidEvents (Maps r pk fk) s s'
  | removeMapping _ _ => Unmaps s s'
  | mapPrimaryKeyColumn r pk => s.isLive r = true ∧ s.isKey pk = true ∧
      (Grow.map s.tables.size r pk).Ready s ∧ pk ∉ (s.mappingsOf r).map Mapping.pk ∧
      AmidEvents (WorksOff Grow.step [.map s.tables.size r pk]) s s'
  | attachRelationship r p ch auto => Attachable r p ch s ∧
      ∃ s₁, Attaches r p ch auto (s.attachStart r) s₁ ∧ s' = s₁.signal .compoundEditEnded
  | setIdentifying r new =>
      (new && !s.isIdentifying r && s.endsCloseCycle r (s.parent? r) (s.child? r)) = false ∧
        AmidEvents (Marks r new) s s'
  | setSecondaryChangeMode t true => s' = s.suspended t
  | setSecondaryChangeMode t false => s.tables.contains t = true ∧
      ((s.isHolding t = false ∧ s' = s) ∨ (s.isHolding t = true ∧ Exits t s s'))
  | setMagicEnabled t on => s' = s.setMagic t on
  -- the other operations describe objects
  | _ => SameSkeleton s s'

/-- What an operation has come to when it stops halfway. -/
def Halts (op : Op) (s s' : Schema) : Prop :=
  match op with
  | attachRelationship r p ch auto => Attachable r p ch s ∧
      ∃ s₁, AttachHalts r p ch auto (s.attachStart r) s₁ ∧ s' = s₁.signal .compoundEditEnded
  | setSecondaryChangeMode t false => s.tables.contains t = true ∧ s.isHolding t = true ∧
      Schema.Halts t s s'
  | _ => False

/-- An edit that is atomic ends in what it does or leaves the schema untouched. -/
theorem ends_of_atomic {α : Type} {x : Edit α} {f : α → Reply} {H : Schema → Prop}
    (h : x.Atomic (fun _ s' => op.Does s s') s) :
    (f <$> x).Ends (fun _ s' => op.Does s s') (fun _ s' => s.Untouched s' ∨ H s') s := by
  rw [Edit.ends_map]
  exact Edit.Ends.mono h (fun _ _ h => h) fun _ _ h => .inl h

/-- Every operation does what it does, or is refused and leaves the schema untouched, or stops
halfway. -/
theorem edit_ends (hs : s.Sound) (op : Op) :
    op.edit.Ends (fun _ s' => op.Does s s') (fun _ s' => s.Untouched s' ∨ op.Halts s s') s := by
  cases op
  case addTable tbl => exact ends_of_atomic (Edit.addTable_ends tbl s).atomic
  case removeTable t => exact ends_of_atomic (Edit.removeTable_atomic hs t)
  case addColumn t col => exact ends_of_atomic (Edit.addColumn_atomic hs t col)
  case insertColumn t i col => exact ends_of_atomic (Edit.insertColumn_atomic hs t i col)
  case removeColumn c => exact ends_of_atomic (Edit.removeColumn_atomic hs c)
  case moveColumn c i => exact ends_of_atomic (Edit.moveColumn_atomic hs c i)
  case setColumnName c name => exact ends_of_atomic (Edit.setColumnName_atomic hs c name)
  case setDataType c type => exact ends_of_atomic (Edit.setShared_atomic hs _ c)
  case setPrecision c n => exact ends_of_atomic (Edit.setShared_atomic hs _ c)
  case setScale c n => exact ends_of_atomic (Edit.setShared_atomic hs _ c)
  case setNullable c b => exact ends_of_atomic (Edit.setShared_atomic hs _ c)
  case setPrimaryKeySeq c rank =>
    cases rank with
    | none => exact ends_of_atomic (Edit.setPrimaryKeySeq_none_atomic hs c)
    | some k => exact ends_of_atomic (Edit.setPrimaryKeySeq_some_atomic hs c k)
  case normalizePrimaryKey t => exact ends_of_atomic (Edit.normalizePrimaryKey_atomic hs t)
  case createRelationship rel => exact ends_of_atomic (Edit.createRelationship_atomic s rel)
  case setParent r t => exact ends_of_atomic (Edit.setParent_atomic s r t)
  case setChild r t => exact ends_of_atomic (Edit.setChild_atomic s r t)
  case addExportedKey t r => exact ends_of_atomic (Edit.addExportedKey_atomic s t r)
  case addImportedKey t r => exact ends_of_atomic (Edit.addImportedKey_atomic s t r)
  case removeExportedKey t r => exact ends_of_atomic (Edit.removeExportedKey_atomic hs t r)
  case removeImportedKey t r => exact ends_of_atomic (Edit.removeImportedKey_atomic hs t r)
  case removeRelationship r => exact ends_of_atomic (Edit.removeRelationship_atomic hs r)
  case addMapping r pk fk => exact ends_of_atomic (Edit.addMapping_atomic hs r pk fk)
  case removeMapping r pk => exact ends_of_atomic (Edit.removeMapping_atomic s r pk)
  case mapPrimaryKeyColumn r pk => exact ends_of_atomic (Edit.mapPrimaryKeyColumn_atomic hs r pk)
  case setIdentifying r new => exact ends_of_atomic (Edit.setIdentifying_atomic hs r new)
  case setMagicEnabled t on => exact ends_of_atomic (Edit.setMagicEnabled_atomic s t on)
  -- the two operations that may stop halfway
  case attachRelationship r p ch auto =>
    unfold edit
    rw [Edit.ends_map]
    exact (Edit.attachRelationship_ends hs r p ch auto).mono (fun _ _ h => h)
      fun _ _ h => h.imp And.right id
  case setSecondaryChangeMode t on =>
    cases on with
    | true => exact ends_of_atomic (Edit.setSecondaryChangeMode_true_atomic s t)
    | false =>
        unfold edit
        rw [Edit.ends_map]
        refine (Edit.setSecondaryChangeMode_false_ends hs t).mono (fun _ _ h => h) ?_
        rintro _ s' (⟨-, rfl⟩ | h)
        · exact .inl (.refl s')
        · exact .inr h
  -- the operations that describe a table, a column or a relationship
  case setTableName | setTablePhysicalName | setTableRemarks =>
    exact ends_of_atomic (Edit.describeTable_atomic (fun _ => rfl) (fun _ => rfl) (fun _ => rfl)
      fun _ => rfl)
  case setColumnPhysicalName | setDefaultValue | setColumnRemarks | setAutoIncrement =>
    exact ends_of_atomic (Edit.describeColumn_atomic (fun _ => rfl) fun _ => rfl)
  all_goals
    exact ends_of_atomic (Edit.describeRelationship_atomic (fun _ => rfl) (fun _ => rfl)
      (fun _ => rfl) fun _ => rfl)

/-- What a series of edits keeps of a schema, whichever operation it is and whatever it ends in. -/
theorem perform_preserves {P : Schema → Prop} (hs : s.Sound) (op : Op)
    (hdoes : ∀ s', op.Does s s' → P s') (hhalts : ∀ s', op.Halts s s' → P s')
    (huntouched : ∀ s', s.Untouched s' → P s') : P (op.perform s).2 :=
  Edit.Ends.left (x := op.edit) <| (edit_ends hs op).mono (fun _ s' h => hdoes s' h)
    fun _ s' h => h.elim (huntouched s') (hhalts s')

/-! ## Composite operations -/

/-- Attaching a relationship does its work between two events. -/
theorem Does.attaches {auto : Bool} (h : (attachRelationship r p ch auto).Does s s') :
    AmidEvents (fun s₁ s₂ => Attachable r p ch s₁ ∧ Attaches r p ch auto s₁ s₂) s s' := by
  obtain ⟨hatt, s₁, h, rfl⟩ := h
  exact ⟨_, _, sameObjects_attachStart r s, ⟨hatt.attachStart, h⟩, .signal _ s₁⟩

/-- Setting the mode of a table is what opening or closing a scope does. -/
theorem Does.closes {on : Bool} (h : (setSecondaryChangeMode t on).Does s s') : Closes s s' := by
  cases on with
  | true =>
      obtain rfl := h
      exact .switches (.suspended t)
  | false =>
      obtain ⟨-, ⟨-, rfl⟩ | ⟨-, h⟩⟩ := h
      · exact .switches (.told (.refl _))
      · exact .exits h

/-- Only attaching a relationship and leaving the mode stop halfway. -/
theorem Halts.cases (h : op.Halts s s') :
    (∃ r p ch auto, AmidEvents
      (fun s₁ s₂ => Attachable r p ch s₁ ∧ AttachHalts r p ch auto s₁ s₂) s s') ∨
      ∃ t, Schema.Halts t s s' := by
  cases op
  case attachRelationship r p ch auto =>
    obtain ⟨hatt, s₁, h, rfl⟩ := h
    exact .inl ⟨r, p, ch, auto, _, _, sameObjects_attachStart r s, ⟨hatt.attachStart, h⟩,
      .signal _ s₁⟩
  case setSecondaryChangeMode t on =>
    cases on with
    | true => exact False.elim h
    | false => exact .inr ⟨t, h.2.2⟩
  all_goals exact False.elim h

/-! ## Soundness -/

/-- What an operation does keeps a schema sound. -/
theorem Does.sound (h : op.Does s s') (hs : s.Sound) : s'.Sound := by
  cases op
  case addTable tbl =>
    obtain rfl := h
    exact hs.appendTable tbl
  case removeTable t => exact AmidEvents.sound h hs fun _ _ _ hs₁ h => h.sound hs₁
  case addColumn t col =>
    obtain ⟨i, h⟩ := h
    exact h.sound hs fun _ _ _ hs₁ h => h.sound hs₁
  case insertColumn t i col => exact AmidEvents.sound h hs fun _ _ _ hs₁ h => h.sound hs₁
  case removeColumn c => exact h.2.2.sound hs fun _ _ _ hs₁ h => (hs₁.prune h).1
  case moveColumn c i => exact Moves.sound h hs
  case setPrimaryKeySeq c rank =>
    cases rank with
    | none => exact h.2.sound hs fun _ _ _ hs₁ h => (hs₁.prune h).1
    | some k => exact h.2.sound hs fun s₁ _ ho hs₁ h' => h'.sound hs₁ (ho.columns ▸ h.1)
  case normalizePrimaryKey t =>
    obtain rfl := h
    exact (reranks_normalizeKey t none s).sound hs
  case createRelationship rel =>
    obtain ⟨hp, hch, rfl⟩ := h
    exact hs.storeRelationship rfl hp hch
  case setParent r t =>
    obtain ⟨hreg, hm, ht, rfl⟩ := h
    exact hs.changeParent hreg hm _ ht
  case setChild r t =>
    obtain ⟨hreg, hm, ht, rfl⟩ := h
    exact hs.changeChild hreg hm _ ht
  case addExportedKey t r =>
    obtain ⟨hp, ⟨-, rfl⟩ | ⟨hr, -, rfl⟩⟩ := h
    · exact hs
    · exact hs.registerExported hp hr
  case addImportedKey t r =>
    obtain ⟨hch, ⟨-, rfl⟩ | ⟨hr, -, rfl⟩⟩ := h
    · exact hs
    · exact hs.registerImported hch hr
  case removeExportedKey t r =>
    obtain ⟨-, h⟩ | ⟨-, rfl⟩ := h
    · exact h.sound hs fun _ _ _ hs₁ h => h.sound hs₁
    · exact (hs.deregisters_exported r).sound hs
  case removeImportedKey t r =>
    obtain ⟨-, h⟩ | ⟨-, rfl⟩ := h
    · exact h.sound hs fun _ _ _ hs₁ h => h.sound hs₁
    · exact (hs.deregisters_imported r).sound hs
  case removeRelationship r =>
    obtain ⟨-, h⟩ | ⟨-, rfl⟩ := h
    · exact h.sound hs fun _ _ _ hs₁ h => h.sound hs₁
    · exact hs.discard r
  case addMapping r pk fk => exact AmidEvents.sound h hs fun _ _ _ hs₁ h => h.sound hs₁
  case removeMapping r pk => exact hs.of_unmaps h
  case mapPrimaryKeyColumn r pk =>
    obtain ⟨-, -, hready, -, h⟩ := h
    refine h.sound hs fun s₁ _ ho hs₁ hw => (hs₁.grow (fun task htask => ?_) hw).1
    obtain rfl := List.mem_singleton.mp htask
    exact ho.grows.ready hready
  case attachRelationship r p ch auto => exact h.attaches.sound hs fun _ _ _ _ h => h.2.sound
  case setIdentifying r b => exact h.2.sound hs fun _ _ _ hs₁ h => h.sound hs₁
  case setSecondaryChangeMode t on => exact h.closes.sound hs
  case setMagicEnabled t on =>
    obtain rfl := h
    exact (Switches.magic t on).sound hs
  all_goals exact SameSkeleton.sound h hs

/-- An operation that stops halfway leaves a sound schema. -/
theorem Halts.sound (h : op.Halts s s') (hs : s.Sound) : s'.Sound := by
  obtain ⟨r, p, ch, auto, h⟩ | ⟨t, h⟩ := h.cases
  · exact h.sound hs fun _ _ _ _ h => h.2.halts.sound
  · exact h.sound

/-- Whatever an operation ends in, it leaves a sound schema. -/
theorem sound_perform (hs : s.Sound) (op : Op) : (op.perform s).2.Sound :=
  perform_preserves hs op (fun _ h => h.sound hs) (fun _ h => h.sound hs) fun _ h => h.sound hs

end Op

/-! ## Scopes and runs -/

namespace Edit

open Schema

variable {s : Schema}

/-- Opening a scope tells of it or switches a table, unless it is refused. -/
theorem switches_enter (s : Schema) (scope : Scope) : Switches s ((enter scope).perform s).2 := by
  refine Ends.left (x := enter scope) (P := Switches s) ?_
  cases scope with
  | compound description => exact .told (.signal _ s)
  | secondaryChange t =>
      unfold enter
      rw [ends_bind]
      refine Ends.mono (enterSecondaryChange_atomic s t) ?_ fun _ _ h => .untouched h
      rintro _ _ rfl
      exact .suspended t
  | magicDisabled t =>
      unfold enter
      simp only [ends_bind, ends_table]
      exact ⟨fun _ _ => .magic t false, fun _ => .told (.refl s)⟩

/-- Closing a scope tells of it or switches a table back, and may catch up with it. -/
theorem closes_leave (hs : s.Sound) (opened : OpenScope) :
    Closes s ((leave opened).perform s).2 := by
  refine Ends.left (x := leave opened) (P := Closes s) ?_
  cases opened with
  | compound => exact .switches (.told (.signal _ s))
  | secondaryChange t entered =>
      cases entered with
      | false => exact .switches (.told (.refl s))
      | true =>
          exact (exitSecondaryChange_ends hs t).mono (fun _ _ h => .exits h) fun _ _ h => .halts h
  | magicDisabled t previous => exact .switches (.magic t previous)

/-- Opening a scope keeps a schema sound. -/
theorem sound_enter (hs : s.Sound) (scope : Scope) : ((enter scope).perform s).2.Sound :=
  (switches_enter s scope).sound hs

/-- Closing a scope keeps a schema sound, also when catching up stops halfway. -/
theorem sound_leave (hs : s.Sound) (opened : OpenScope) : ((leave opened).perform s).2.Sound :=
  (closes_leave hs opened).sound hs

end Edit

/-- What every edit, opening a scope and closing one keep, a whole run keeps. -/
theorem Moment.run_preserves {P : Schema → Prop} (hop : ∀ s (op : Op), P s → P (op.perform s).2)
    (henter : ∀ s scope, P s → P ((Edit.enter scope).perform s).2)
    (hleave : ∀ s opened, P s → P ((Edit.leave opened).perform s).2) {m : Moment}
    (h : P m.schema) (moves : List Move) : P (m.run moves).schema := by
  induction moves generalizing m with
  | nil => exact h
  | cons move moves ih =>
      refine ih ?_
      cases move with
      | edit op => exact hop _ op h
      | enter scope =>
          have hP := henter m.schema scope h
          unfold Moment.after
          dsimp only
          split
          · rename_i hp
            rw [hp] at hP
            exact hP
          · rename_i hp
            rw [hp] at hP
            exact hP
      | leave =>
          unfold Moment.after
          dsimp only
          split
          · exact h
          · exact hleave _ _ h

/-- Every schema that can be reached is sound. -/
theorem Schema.Reachable.sound {s : Schema} (h : s.Reachable) : s.Sound := by
  obtain ⟨config, moves, rfl⟩ := h
  exact Moment.run_preserves (P := Schema.Sound) (fun _ op hs => Op.sound_perform hs op)
    (fun _ scope hs => Edit.sound_enter hs scope) (fun _ opened hs => Edit.sound_leave hs opened)
    (Schema.sound_ofConfig config) moves

end KeyedSchema
