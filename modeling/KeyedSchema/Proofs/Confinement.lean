import KeyedSchema.Proofs.Nesting

/-!
# Confinement — what is told outside of compound edits

Where a change reaches no other table than the given ones, every column that it tells of is at home
with one of them. A column is at home where it was put in, and it stays so after it has gone; so it
is clear of every event, whenever it is heard, which table's column it is about.
-/

namespace KeyedSchema

/-- Whether an event puts a column into a table, takes one out or changes one. -/
def Event.isOfColumn : Event → Bool
  | childInserted (.table _) (.column _) _ => true
  | childRemoved (.table _) (.column _) _ => true
  | propertyChanged (.column _) _ _ _ => true
  | _ => false

/-- Whether an event is neither about columns nor a signal. -/
def Event.isAside (e : Event) : Bool := !e.isCompoundSignal && !e.isOfColumn

namespace Schema

variable {moved : Option (RelationshipId × Option TableId)} {ts : List TableId}
  {s s' s'' s₁ : Schema} {t : TableId} {c : ColumnId} {e : Event}

/-- The table a column of which an event puts in, takes out or changes. -/
def columnTable? (s : Schema) : Event → Option TableId
  | .childInserted (.table t) (.column _) _ => some t
  | .childRemoved (.table t) (.column _) _ => some t
  | .propertyChanged (.column c) _ _ _ => s.home? c
  | _ => none

/-! ## Homes -/

/-- The origins of columns change only when a column is put in. -/
theorem Effect.origins (h : Effect moved s s') : s'.origins = s.origins ∨
    ∃ t, ∃ col : Column, s'.origins =
      s.origins.insert s.nextColumn { col with table := some t } := by
  cases h with
  | skip h => exact .inl (by rw [h.same])
  | placeColumn htbl hi col => exact .inr ⟨_, col, origins_raise _ _⟩
  | describeRelationship | describe => exact .inl (origins_raiseAll _ _)
  | appendTable | eraseTable | relist | dropColumn | describeColumn => exact .inl (origins_raise _ _)
  | _ => exact .inl rfl

/-- Whether columns that had a home still have it. -/
def KeepsHomes (s s' : Schema) : Prop := ∀ c t, s.home? c = some t → s'.home? c = some t

theorem keepsHomes_of_origins (h : s'.origins = s.origins) : KeepsHomes s s' := by
  intro c t hc
  unfold home? at hc ⊢
  rwa [h]

theorem KeepsHomes.trans (h : KeepsHomes s s') (h' : KeepsHomes s' s'') : KeepsHomes s s'' :=
  fun c t hc => h' c t (h c t hc)

/-- A new column comes under a number that was not given out. -/
theorem Tidy.keepsHomes_insert (hs : s.Tidy) {col : Column}
    (h : s'.origins = s.origins.insert s.nextColumn col) : KeepsHomes s s' := by
  intro c t hc
  have hne : c ≠ s.nextColumn := by
    rintro rfl
    have hnone := (Roster.contains_eq_false_iff _ _).mp hs.nextColumn_fresh
    rw [home?, hnone] at hc
    cases hc
  unfold home? at hc ⊢
  rwa [h, Roster.get?_insert, if_neg hne]

theorem Effects.keepsHomes (h : Effects moved s s') (hs : s.Tidy) : KeepsHomes s s' := by
  refine Effects.preserves h (P := KeepsHomes s) (fun s₁ s₂ hs₁ h₁ hstep => h₁.trans ?_) hs
    fun _ _ hc => hc
  rcases hstep.origins with hsame | ⟨t, col, hins⟩
  · exact keepsHomes_of_origins hsame
  · exact hs₁.keepsHomes_insert hins

/-- Whether every column that was ever put in has a home. -/
def Homed (s : Schema) : Prop := ∀ c, s.origins.contains c = true → ∃ t, s.home? c = some t

theorem homed_ofConfig (config : Config) : (ofConfig config).Homed :=
  fun _ hc => absurd hc Bool.false_ne_true

theorem Effect.homed (h : Effect moved s s') (hh : s.Homed) : s'.Homed := by
  intro c hc
  unfold home?
  rcases h.origins with hsame | ⟨t, col, hins⟩
  · rw [hsame] at hc ⊢
    exact hh c hc
  · rw [hins] at hc
    rw [hins, Roster.get?_insert]
    split
    · exact ⟨t, rfl⟩
    · rename_i hne
      exact hh c ((Roster.contains_of_insert hc).resolve_right hne)

/-- A stored column is at home with its owner. -/
theorem Tidy.home?_of_owner (hs : s.Tidy) (h : s.owner? c = some t) : s.home? c = some t := by
  obtain ⟨col, hcol, htable⟩ := Option.bind_eq_some_iff.mp h
  obtain ⟨origin, horigin, hsame⟩ := hs.stored c col hcol
  simp [home?, horigin, hsame, htable]

theorem Tidy.home?_of_listed (ht : s.Tidy) (hs : s.Sound) (hc : c ∈ s.columnsOf t) :
    s.home? c = some t := ht.home?_of_owner ((hs.listed t c).mp hc)

/-! ## What is told outside of compound edits -/

/-- Whether an event keeps to the given tables if it is about a column. -/
def KeepsTo (ts : List TableId) (s : Schema) (e : Event) : Prop :=
  e.isOfColumn = true → ∃ t ∈ ts, s.columnTable? e = some t

/-- Whether an event is no signal and keeps to the given tables. -/
structure Confined (ts : List TableId) (s : Schema) (e : Event) : Prop where
  plain : e.isCompoundSignal = false
  table : s.KeepsTo ts e

theorem confined_of_aside (he : e.isAside = true) : s.Confined ts e := by
  rw [Event.isAside, Bool.and_eq_true, Bool.not_eq_true', Bool.not_eq_true'] at he
  exact ⟨he.1, fun hcol => absurd (he.2.symm.trans hcol) Bool.noConfusion⟩

theorem confined_column (hc : s.home? c = some t) (ht : t ∈ ts) (property : Property)
    (old new : PropertyValue) : s.Confined ts (.propertyChanged (.column c) property old new) :=
  ⟨rfl, fun _ => ⟨t, ht, hc⟩⟩

theorem Confined.keeps (he : s.Confined ts e) (h : KeepsHomes s s') : s'.Confined ts e := by
  refine ⟨he.plain, fun hcol => ?_⟩
  obtain ⟨t, ht, htable⟩ := he.table hcol
  refine ⟨t, ht, ?_⟩
  unfold columnTable? at htable ⊢
  split at htable
  · exact htable
  · exact htable
  · exact h _ t htable
  · cases htable

/-- Whether a change tells, outside of compound edits, of columns of the given tables only. -/
structure Within (ts : List TableId) (s s' : Schema) : Prop where
  homes : KeepsHomes s s'
  voices : Voices (s'.Confined ts) s s'

namespace Within

theorem refl (s : Schema) : Within ts s s := ⟨fun _ _ hc => hc, .refl s⟩

theorem trans (h : Within ts s s') (h' : Within ts s' s'') : Within ts s s'' :=
  ⟨h.homes.trans h'.homes, (h.voices.imp fun _ he => he.keeps h'.homes).trans h'.voices⟩

/-- What tells of no column. -/
theorem of_aside (horigins : s'.origins = s.origins)
    (h : Voices (fun e => e.isAside = true) s s') : Within ts s s' :=
  ⟨keepsHomes_of_origins horigins, h.imp fun _ he => confined_of_aside he⟩

/-- One event that is about no column, after a change that tells nothing by itself. -/
theorem aside (he : e.isAside = true) (hheld : s₁.held = s.held)
    (hpublished : s₁.published = s.published)
    (horigins : s₁.origins = s.origins) : Within ts s (s₁.raise e) :=
  .of_aside ((origins_raise e s₁).trans horigins)
    (Voices.raise (P := fun e => e.isAside = true) he hheld hpublished)

/-- One event about a column of a given table. -/
theorem column (hc : s.home? c = some t) (ht : t ∈ ts) (f : Column → Column) (property : Property)
    (old new : PropertyValue) :
    Within ts s ((s.changeColumn c f).raise (.propertyChanged (.column c) property old new)) := by
  have horigins : ((s.changeColumn c f).raise
      (.propertyChanged (.column c) property old new)).origins = s.origins := origins_raise _ _
  have hhomes := keepsHomes_of_origins horigins
  exact ⟨hhomes, Voices.raise (confined_column (hhomes c t hc) ht property old new) rfl rfl⟩

theorem foldl {α : Type} {f : Schema → α → Schema} (h : ∀ s a, Within ts s (f s a)) (as : List α)
    (s : Schema) : Within ts s (as.foldl f s) := by
  induction as generalizing s with
  | nil => exact refl s
  | cons a as ih => exact (h s a).trans (ih _)

end Within

theorem origins_unmapWhere (p : Mapping → Bool) (r : RelationshipId) (s : Schema) :
    (s.unmapWhere p r).origins = s.origins := by
  unfold unmapWhere
  split
  · rfl
  · exact origins_raiseAll _ _

theorem origins_clearMappings (r : RelationshipId) (s : Schema) :
    (s.clearMappings r).origins = s.origins := by
  unfold clearMappings
  split
  · rfl
  · exact origins_raiseAll _ _

theorem origins_syncMappingOrder (r : RelationshipId) (s : Schema) :
    (s.syncMappingOrder r).origins = s.origins := by
  unfold syncMappingOrder
  split
  · rfl
  · dsimp only
    split
    · rfl
    · exact origins_raise _ _

theorem origins_renumber (n : Nat) (ranks : List (ColumnId × Nat)) (s : Schema) :
    (renumber n ranks s).origins = s.origins := by
  induction ranks generalizing n s with
  | nil => rfl
  | cons entry ranks ih =>
      obtain ⟨c, rank⟩ := entry
      unfold renumber
      rw [ih]
      split
      · rfl
      · exact origins_raise _ _

theorem within_syncMappingOrder (r : RelationshipId) (s : Schema) :
    Within ts s (s.syncMappingOrder r) :=
  .of_aside (origins_syncMappingOrder r s)
    (voices_syncMappingOrder (P := fun e => e.isAside = true) r rfl s)

theorem within_clearMappings (r : RelationshipId) (s : Schema) : Within ts s (s.clearMappings r) :=
  .of_aside (origins_clearMappings r s)
    (voices_clearMappings (P := fun e => e.isAside = true) r (fun _ _ => rfl) s)

theorem within_unmapColumn (c : ColumnId) (s : Schema) : Within ts s (s.unmapColumn c) :=
  .foldl (fun s r => .of_aside (origins_unmapWhere _ r s)
    (voices_unmapWhere (P := fun e => e.isAside = true) _ r (fun _ _ => rfl) s)) _ s

theorem within_deregisterExported (r : RelationshipId) (s : Schema) :
    Within ts s (s.deregisterExported r) := by
  unfold deregisterExported
  split
  · exact .refl s
  · split
    · exact .refl s
    · exact .aside (by rfl) rfl rfl rfl

theorem within_deregisterImported (r : RelationshipId) (s : Schema) :
    Within ts s (s.deregisterImported r) := by
  unfold deregisterImported
  split
  · exact .refl s
  · split
    · exact .refl s
    · exact .aside (by rfl) rfl rfl rfl

/-- Numbering the key of a given table tells of its own columns. -/
theorem within_renumber (ht : t ∈ ts) (hhomes : ∀ c ∈ s.columnsOf t, s.home? c = some t)
    (placed : Option ColumnId) : Within ts s (renumber 0 (s.keyOrder t placed) s) := by
  have hkeeps := keepsHomes_of_origins (origins_renumber 0 (s.keyOrder t placed) s)
  -- whatever gets another number is listed by the table, and its home is there
  refine ⟨hkeeps, voices_renumber 0 _ (fun entry he old new => ?_) s⟩
  exact confined_column (hkeeps _ t (hhomes entry.1 (mem_keyOrder.mp he).1)) ht _ old new

/-- Whether a table is given, and no other table follows its key. -/
structure Alone (ts : List TableId) (t : TableId) (s : Schema) : Prop where
  given : t ∈ ts
  homes : ∀ c ∈ s.columnsOf t, s.home? c = some t
  dependents : s.hasKeyDependents t = false

theorem SameFrame.hasKeyDependents (h : SameFrame s s') (t : TableId) :
    s'.hasKeyDependents t = s.hasKeyDependents t := by
  unfold Schema.hasKeyDependents
  rw [h.cascades, h.exportsOf, funext h.isLive]

namespace Alone

theorem of_frame (h : s.Alone ts t) (hframe : SameFrame s s')
    (hhomes : ∀ c ∈ s'.columnsOf t, s'.home? c = some t) : s'.Alone ts t :=
  ⟨h.given, hhomes, (hframe.hasKeyDependents t).trans h.dependents⟩

/-- What leaves the columns of tables and their origins alone. -/
theorem keep (h : s.Alone ts t) (hframe : SameFrame s s') (horigins : s'.origins = s.origins)
    (hcolumns : s'.columnsOf t = s.columnsOf t) : s'.Alone ts t :=
  h.of_frame hframe fun c hc => keepsHomes_of_origins horigins c t (h.homes c (hcolumns ▸ hc))

theorem liveExportsOf (h : s.Alone ts t) (hcascades : s.cascades t = true) :
    s.liveExportsOf t = [] := by
  have hnone := h.dependents
  rw [Schema.hasKeyDependents, hcascades, Bool.true_and, List.any_eq_false] at hnone
  exact List.filter_eq_nil_iff.mpr hnone

theorem changeRank (h : s.Alone ts t) (c : ColumnId) (old new : Option Nat) :
    (s.changeRank c old new).Alone ts t := by
  have hre := reranks_changeRank c old new s
  exact h.keep hre.sameFrame (origins_raise _ _) (hre.columnsOf t)

end Alone

/-- Whether a change tells of columns of other tables in a compound edit at most, which ends it. -/
inductive Covers (ts : List TableId) (s s' : Schema) : Prop
  | within (h : Within ts s s')
  | compound {moved : Option (RelationshipId × Option TableId)} {s₁ s₂ : Schema}
      (h : Voices (fun e => e.isAside = true) s s₁) (description : String)
      (hbody : Changes moved (s₁.signal (.compoundEditStarted description)) s₂)
      (hend : s' = s₂.signal .compoundEditEnded)

theorem Covers.refl (s : Schema) : Covers ts s s := .within (.refl s)

end Schema

end KeyedSchema
