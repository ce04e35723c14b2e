import KeyedSchema.Proofs.KeyOrder
import KeyedSchema.Proofs.Outcome

/-!
# Lookups — the look-ups of a cascade do not miss

Bringing mappings into key order, normalizing a key and asking for followers look objects up that
nothing has checked before. Each of the edits has two kinds of rules: those for any schema, where a
look-up may miss, and those for sound schemas, where none does. The latter is what makes a cascade go
through once the edit that starts it has been checked: a sound schema stores the relationships that
are registered with its tables, and the tables that own its columns.

- `ends_syncMappingOrder_of` : the mappings of a stored relationship are brought into order;
- `perform_normalizeKey`     : the key of a stored table is normalized;
- `perform_followers`        : the followers of a stored column are found.
-/

namespace KeyedSchema

namespace Edit

open Schema

variable {s : Schema} {t : TableId} {c : ColumnId} {r : RelationshipId} {placed : Option ColumnId}

/-! ## The order of mappings -/

theorem syncMappingOrder_ends {Q : Unit → Schema → Prop} {E : EditError → Schema → Prop}
    (hQ : Q () (s.syncMappingOrder r)) (hE : ∀ e, E e s) : (syncMappingOrder r).Ends Q E s := by
  unfold syncMappingOrder
  simp only [ends_bind, ends_discard, ends_relationship, ends_change]
  exact ⟨fun _ _ => hQ, fun _ => hE _⟩

/-- A relationship that is stored is found. -/
theorem ends_syncMappingOrder_of (hr : s.relationships.contains r = true)
    {Q : Unit → Schema → Prop} {E : EditError → Schema → Prop} :
    (syncMappingOrder r).Ends Q E s ↔ Q () (s.syncMappingOrder r) := by
  obtain ⟨rel, hrel⟩ := (Roster.contains_iff _ _).mp hr
  unfold syncMappingOrder
  simp only [ends_bind, ends_discard, ends_relationship_of hrel, ends_change]

/-! ## Normalizing a key -/

/-- What numbering the key and ordering the mappings of one relationship keep is kept, wherever a
look-up stops it. -/
theorem normalizeKey_keeps {Q : Schema → Prop} (h : Q s)
    (hnumber : Q (Schema.renumber 0 (s.keyOrder t placed) s))
    (hsync : ∀ r s', Q s' → Q (s'.syncMappingOrder r)) :
    (normalizeKey t placed).Ends (fun _ => Q) (fun _ => Q) s := by
  unfold normalizeKey
  simp only [ends_bind, ends_discard, ends_table, ends_change, ends_ask]
  refine ⟨fun tbl _ => ?_, fun _ => h⟩
  refine Ends.forM (I := fun _ => Q) (fun r _ s₁ h₁ => ?_) hnumber
  exact syncMappingOrder_ends (hsync r s₁ h₁) fun _ => h₁

theorem normalizeKey_reranks (t : TableId) (placed : Option ColumnId) (s : Schema) :
    (normalizeKey t placed).Ends (fun _ s' => Reranks s s') (fun _ s' => Reranks s s') s :=
  normalizeKey_keeps (.refl s) (reranks_renumber ..) fun r s' h =>
    h.trans (reranks_syncMappingOrder r s')

/-- In a sound schema every relationship that is registered with a table is found. -/
theorem perform_normalizeKey (hs : s.Sound) (ht : s.tables.contains t = true) :
    (normalizeKey t placed).perform s = (.ok (), s.normalizeKey t placed) := by
  obtain ⟨tbl, htbl⟩ := (Roster.contains_iff _ _).mp ht
  have hframe := (reranks_renumber 0 (s.keyOrder t placed) s).sameFrame
  apply Ends.perform_eq
  unfold normalizeKey
  simp only [ends_bind, ends_discard, ends_table_of htbl, ends_change, ends_ask]
  refine (Ends.forM (I := fun rs s₁ => (∀ r ∈ rs, s₁.relationships.contains r = true) ∧
    rs.foldl (fun s r => s.syncMappingOrder r) s₁ = s.normalizeKey t placed)
    (fun r rs s₁ h₁ => ?_) ⟨fun r hr => ?_, rfl⟩).imp fun _ _ h' => ⟨trivial, h'.2⟩
  · rw [ends_syncMappingOrder_of (h₁.1 r (List.mem_cons_self ..))]
    refine ⟨fun r' hr' => ?_, h₁.2⟩
    rw [(reranks_syncMappingOrder r s₁).sameFrame.contains_relationship]
    exact h₁.1 r' (List.mem_cons_of_mem _ hr')
  · rw [hframe.contains_relationship]
    exact contains_of_parent? (hs.exported t r (hframe.exportsOf t ▸ hr))

theorem ends_normalizeKey_of (hs : s.Sound) (ht : s.tables.contains t = true)
    {Q : Unit → Schema → Prop} {E : EditError → Schema → Prop} :
    (normalizeKey t placed).Ends Q E s ↔ Q () (s.normalizeKey t placed) :=
  ends_of_perform (perform_normalizeKey hs ht)

/-! ## Followers -/

/-- Asking for followers changes nothing. It is refused of a column that is not stored, or whose
table is not. -/
theorem followers_outcome (c : ColumnId) (s : Schema) :
    (followers c).Ends (fun cs s' => cs = s.followers c ∧ s' = s)
      (fun _ s' => s' = s ∧ (s.columns.contains c = true →
        ∃ t, s.owner? c = some t ∧ s.tables.contains t = false)) s := by
  unfold followers
  simp only [ends_bind, ends_column]
  constructor
  · intro col hcol
    have howner : s.owner? c = col.table := by simp [owner?, hcol]
    cases htable : col.table with
    | none => exact ⟨by simp [Schema.followers, howner, htable], rfl⟩
    | some t =>
        cases hkey : col.isKey with
        | false => exact ⟨by simp [Schema.followers, howner, htable, isKey_of_get? hcol, hkey], rfl⟩
        | true =>
            simp only [if_true, ends_bind, ends_discard, ends_table, ends_ask]
            refine ⟨fun _ _ => ⟨trivial, trivial⟩, fun ht => ⟨trivial, fun _ => ?_⟩⟩
            exact ⟨t, howner.trans htable, (Roster.contains_eq_false_iff _ _).mpr ht⟩
  · refine fun hnone => ⟨trivial, fun hc => ?_⟩
    rw [(Roster.contains_eq_false_iff _ _).mpr hnone] at hc
    exact Bool.noConfusion hc

theorem followers_ends {Q : List ColumnId → Schema → Prop} {E : EditError → Schema → Prop}
    (hQ : Q (s.followers c) s) (hE : ∀ e, E e s) : (followers c).Ends Q E s :=
  (followers_outcome c s).mono (by rintro _ _ ⟨rfl, rfl⟩; exact hQ)
    (by rintro e _ ⟨rfl, -⟩; exact hE e)

/-- In a sound schema the table of a column is found. -/
theorem perform_followers (hs : s.Sound) (hc : s.columns.contains c = true) :
    (followers c).perform s = (.ok (s.followers c), s) := by
  refine Ends.perform_eq ((followers_outcome c s).mono (fun _ _ h => h) ?_)
  rintro _ _ ⟨-, hmiss⟩
  obtain ⟨t, howner, ht⟩ := hmiss hc
  obtain ⟨tbl, htbl⟩ := hs.table_of_owner howner
  exact absurd (ht.symm.trans (Roster.contains_of_get? htbl)) Bool.noConfusion

theorem ends_followers_of (hs : s.Sound) (hc : s.columns.contains c = true)
    {Q : List ColumnId → Schema → Prop} {E : EditError → Schema → Prop} :
    (followers c).Ends Q E s ↔ Q (s.followers c) s :=
  ends_of_perform (perform_followers hs hc)

end Edit

end KeyedSchema
