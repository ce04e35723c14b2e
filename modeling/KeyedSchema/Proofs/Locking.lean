import KeyedSchema.Proofs.Step

/-!
# Locking — what relationships refer to, and which columns they lock

Ends, registrations and mappings refer to tables, relationships and columns that are there. A
mapped child column belongs to the child of its relationship, and a live relationship is registered
with its child; so the search of one table's imported keys that locks a column finds whatever a
search of all relationships would find.
-/

namespace KeyedSchema

namespace Schema

variable {s : Schema} {t : TableId} {c : ColumnId} {r : RelationshipId}

/-- Whether everything that relationships and registrations refer to is stored where they say. -/
structure Referential (s : Schema) : Prop where
  /-- The ends of a relationship are stored tables. -/
  ends_stored : ∀ r rel, s.relationships.get? r = some rel →
    ∀ t, rel.parent = some t ∨ rel.child = some t → s.tables.contains t = true
  /-- A table exports only relationships that have it as their parent. -/
  exported : ∀ t tbl, s.tables.get? t = some tbl → ∀ r ∈ tbl.exportedKeys,
    ∃ rel, s.relationships.get? r = some rel ∧ rel.parent = some t
  /-- A table imports only relationships that have it as their child. -/
  imported : ∀ t tbl, s.tables.get? t = some tbl → ∀ r ∈ tbl.importedKeys,
    ∃ rel, s.relationships.get? r = some rel ∧ rel.child = some t
  /-- A mapping joins a stored column of the parent to a stored column of the child. -/
  mapped : ∀ r rel, s.relationships.get? r = some rel → ∀ m ∈ rel.mappings,
    ∃ p ch pk fk, rel.parent = some p ∧ s.columns.get? m.pk = some pk ∧ pk.table = some p ∧
      m.pk ∈ s.columnsOf p ∧
      rel.child = some ch ∧ s.columns.get? m.fk = some fk ∧ fk.table = some ch ∧
      m.fk ∈ s.columnsOf ch
  /-- A relationship maps no column of its parent twice. -/
  pks_nodup : ∀ r rel, s.relationships.get? r = some rel → (rel.mappings.map Mapping.pk).Nodup

theorem Sound.referential (hs : s.Sound) : s.Referential where
  ends_stored := by
    intro r rel hrel t hend
    rcases hend with hp | hch
    · exact hs.parent_stored r t (by simpa [parent?, hrel] using hp)
    · exact hs.child_stored r t (by simpa [child?, hrel] using hch)
  exported := by
    intro t tbl htbl r hr
    exact hs.relationship_of_export (mem_exportsOf.mpr ⟨tbl, htbl, hr⟩)
  imported := by
    intro t tbl htbl r hr
    exact Option.bind_eq_some_iff.mp (hs.imported t r (mem_importsOf.mpr ⟨tbl, htbl, hr⟩))
  mapped := by
    intro r rel hrel m hm
    obtain ⟨p, ch, hp, hch, hpk, hfk⟩ := hs.mapped r m (mem_mappingsOf.mpr ⟨rel, hrel, hm⟩)
    obtain ⟨pk, hpkcol, hpktable⟩ := Option.bind_eq_some_iff.mp hpk
    obtain ⟨fk, hfkcol, hfktable⟩ := Option.bind_eq_some_iff.mp hfk
    simp only [parent?, child?, hrel, Option.bind_some] at hp hch
    exact ⟨p, ch, pk, fk, hp, hpkcol, hpktable, (hs.listed p m.pk).mpr hpk,
      hch, hfkcol, hfktable, (hs.listed ch m.fk).mpr hfk⟩
  pks_nodup := by
    intro r rel hrel
    simpa [mappingsOf, hrel] using hs.pks_nodup r

/-! ## Locked columns -/

/-- What locks a column is a live relationship that maps it on its child side. -/
theorem retained_of_lock? (h : s.lock? t c = some r) :
    ∃ rel, s.relationships.get? r = some rel ∧ s.isLive r = true ∧ ∃ m ∈ rel.mappings, m.fk = c := by
  have hfound := List.find?_some h
  rw [Bool.and_eq_true] at hfound
  cases hrel : s.relationships.get? r with
  | none => simp [hrel] at hfound
  | some rel =>
      rw [hrel, Option.any_some, mapsTo_iff] at hfound
      exact ⟨rel, rfl, hfound.1, hfound.2⟩

/-- The imported keys of the owner hold a lock exactly if some relationship of the schema does. -/
theorem Sound.isSome_lock? (hs : s.Sound) (hc : s.owner? c = some t) :
    (s.lock? t c).isSome = s.isRetained c := by
  cases hl : s.lock? t c with
  | none => exact (hs.not_isRetained_of_lock? hc hl).symm
  | some r =>
      obtain ⟨rel, hrel, hlive, m, hm, hfk⟩ := retained_of_lock? hl
      exact ((hs.isRetained_iff c).mpr ⟨r, hlive, m, mem_mappingsOf.mpr ⟨rel, hrel, hm⟩, hfk⟩).symm

theorem Sound.isRetained_iff_stored (hs : s.Sound) (c : ColumnId) :
    s.isRetained c = true ↔ ∃ r rel, s.relationships.get? r = some rel ∧ s.isLive r = true ∧
      ∃ m ∈ rel.mappings, m.fk = c := by
  rw [hs.isRetained_iff]
  constructor
  · rintro ⟨r, hl, m, hm, hfk⟩
    obtain ⟨rel, hrel, hm⟩ := mem_mappingsOf.mp hm
    exact ⟨r, rel, hrel, hl, m, hm, hfk⟩
  · rintro ⟨r, rel, hrel, hl, m, hm, hfk⟩
    exact ⟨r, hl, m, mem_mappingsOf.mpr ⟨rel, hrel, hm⟩, hfk⟩

end Schema

namespace Edit

open Schema

variable {s : Schema} {c : ColumnId}

/-- Removing a stored column is refused for its lock if it has one, and not at all otherwise. -/
theorem removeColumn_ends_lock (hs : s.Sound) (hc : s.columns.contains c = true) :
    (removeColumn c).Ends (fun _ _ => ¬ s.isRetained c = true)
      (fun e s' => s.isRetained c = true ∧ (∃ r, e = .lockedColumn c r) ∧ s' = s) s := by
  obtain ⟨col, hcol⟩ := (Roster.contains_iff _ _).mp hc
  obtain ⟨t, ht⟩ := hs.owned c hc
  obtain ⟨tbl, htbl⟩ := hs.table_of_owner ht
  have hlock := hs.isSome_lock? ht
  unfold removeColumn
  simp only [ends_bind, ends_ownerOf_of ht, ends_discard, ends_table_of htbl, ends_get]
  cases hl : s.lock? t c with
  | some r =>
      rw [hl] at hlock
      exact ⟨hlock.symm, ⟨r, rfl⟩, rfl⟩
  | none =>
      rw [hl] at hlock
      simp only [ends_bind, ends_column_of hcol]
      -- once the lock is ruled out the cascade is never refused
      refine (ends_compoundIf_amid _ _ fun s₁ h₁ =>
        removeColumnCascade_worksOff (hs.of_sameObjects h₁) (h₁.columns ▸ hc)).total fun _ _ _ => ?_
      rw [← hlock]
      exact Bool.false_ne_true

end Edit

namespace Op

open Schema Edit

variable {s : Schema} {c : ColumnId}

/-- Removing a stored column is refused as locked exactly if a live relationship retains it. -/
theorem removeColumn_locked_iff (hs : s.Sound) (hc : s.columns.contains c = true) :
    (∃ r s', (Op.removeColumn c).perform s = (.error (.lockedColumn c r), s')) ↔
      s.isRetained c = true := by
  have hends : (Op.removeColumn c).edit.Ends (fun _ _ => ¬ s.isRetained c = true)
      (fun e s' => s.isRetained c = true ∧ (∃ r, e = .lockedColumn c r) ∧ s' = s) s := by
    unfold Op.edit
    rw [ends_map]
    exact removeColumn_ends_lock hs hc
  constructor
  · rintro ⟨r, s', hrefused⟩
    exact (Ends.of_error hends hrefused).1
  · intro hret
    rcases hperform : (Op.removeColumn c).perform s with ⟨e | reply, s'⟩
    · obtain ⟨-, ⟨r, rfl⟩, -⟩ := Ends.of_error hends hperform
      exact ⟨r, s', rfl⟩
    · exact absurd hret (Ends.of_ok hends hperform)

end Op

/-- In a schema that can be reached, all references are in order, and removing a stored column is
refused as locked exactly if some live relationship, anywhere in the schema, maps the column on its
child side: the search of the owner's imported keys agrees with the search of all relationships. -/
theorem Schema.Reachable.references {s : Schema} (h : s.Reachable) :
    s.Referential ∧
    ∀ c col, s.columns.get? c = some col →
      ((∃ r s', (Op.removeColumn c).perform s = (.error (.lockedColumn c r), s')) ↔
        ∃ r rel, s.relationships.get? r = some rel ∧ s.isLive r = true ∧
          ∃ m ∈ rel.mappings, m.fk = c) ∧
      ∃ t, col.table = some t ∧ (s.lock? t c).isSome = s.isRetained c := by
  have hs := h.sound
  refine ⟨hs.referential, ?_⟩
  intro c col hcol
  have hc : s.columns.contains c = true := Roster.contains_of_get? hcol
  obtain ⟨t, ht⟩ := hs.owned c hc
  constructor
  · rw [Op.removeColumn_locked_iff hs hc]
    exact hs.isRetained_iff_stored c
  · exact ⟨t, (owner?_of_get? hcol).symm.trans ht, hs.isSome_lock? ht⟩

/-- Two parents whose keys are mapped to one column of a child, one of them by a relationship that
is registered with its child alone. -/
def sharingMoves : List Move :=
  [.edit (.addTable { name := "p" }),
    .edit (.addTable { name := "q" }),
    .edit (.addTable { name := "c" }),
    .edit (.addColumn ⟨1⟩ { name := "id", rank := some 0 }),
    .edit (.addColumn ⟨2⟩ { name := "id", rank := some 0 }),
    .edit (.createRelationship { name := "pc" }),
    .edit (.attachRelationship ⟨1⟩ ⟨1⟩ ⟨3⟩ true),
    .edit (.createRelationship { name := "qc", parent := some ⟨2⟩, child := some ⟨3⟩ }),
    .edit (.addMapping ⟨2⟩ ⟨2⟩ ⟨3⟩),
    .edit (.addImportedKey ⟨3⟩ ⟨2⟩)]

/-- The shared column is locked by the relationship that is live, and by no other. -/
theorem Schema.references_sharing : ∃ s : Schema, s.Reachable ∧
    s.lock? ⟨3⟩ ⟨3⟩ = some ⟨1⟩ ∧ s.isLive ⟨2⟩ = false ∧ (s.mappingsOf ⟨2⟩).length = 1 ∧
    s.Referential ∧
    ∀ c col, s.columns.get? c = some col →
      ((∃ r s', (Op.removeColumn c).perform s = (.error (.lockedColumn c r), s')) ↔
        ∃ r rel, s.relationships.get? r = some rel ∧ s.isLive r = true ∧
          ∃ m ∈ rel.mappings, m.fk = c) ∧
      ∃ t, col.table = some t ∧ (s.lock? t c).isSome = s.isRetained c := by
  have hreach : Schema.Reachable ((Moment.start {}).run sharingMoves).schema :=
    ⟨{}, sharingMoves, rfl⟩
  refine ⟨_, hreach, by decide +kernel, by decide +kernel, by decide +kernel, ?_⟩
  exact hreach.references

end KeyedSchema
