import KeyedSchema.Proofs.Atomicity
import KeyedSchema.Proofs.Lookups
import KeyedSchema.Schema.Columns
import KeyedSchema.Schema.Relationships

/-!
# Attributes — edits that describe objects

Names, types, remarks, cardinalities and rules say nothing about how objects refer to each other.
`SameSkeleton` relates two schemas that differ at most in them: the shape, the ranks, the mappings
and the switches that cascades look at are the same. Renaming a column and changing a shared
attribute reach other columns, but nothing else of them.

The columns that they reach are followers: changes of a key column are passed to the columns that
live relationships of its table map it to, if the table cascades (`PassesTo`).
-/

namespace KeyedSchema

namespace Schema

variable {s s' s'' : Schema} {t : TableId} {c fk : ColumnId} {r : RelationshipId}

/-- Whether two schemas agree on everything that cascades look at, names aside. -/
structure SameSkeleton (s s' : Schema) : Prop where
  shape : SameShape s s'
  rank? : ∀ c, s'.rank? c = s.rank? c
  mappingsOf : ∀ r, s'.mappingsOf r = s.mappingsOf r
  isIdentifying : ∀ r, s'.isIdentifying r = s.isIdentifying r
  cascades : ∀ t, s'.cascades t = s.cascades t

namespace SameSkeleton

@[refl] theorem refl (s : Schema) : SameSkeleton s s :=
  ⟨.refl s, fun _ => rfl, fun _ => rfl, fun _ => rfl, fun _ => rfl⟩

theorem trans (h : SameSkeleton s s') (h' : SameSkeleton s' s'') : SameSkeleton s s'' :=
  ⟨h.shape.trans h'.shape, fun c => (h'.rank? c).trans (h.rank? c),
    fun r => (h'.mappingsOf r).trans (h.mappingsOf r),
    fun r => (h'.isIdentifying r).trans (h.isIdentifying r),
    fun t => (h'.cascades t).trans (h.cascades t)⟩

theorem sound (h : SameSkeleton s s') (hs : s.Sound) : s'.Sound := hs.of_sameShape h.shape

end SameSkeleton

theorem SameObjects.sameSkeleton (h : SameObjects s s') : SameSkeleton s s' := by
  obtain ⟨held, raised, published, origins, rfl⟩ := h.exists_eq
  exact ⟨h.sameShape, fun _ => rfl, fun _ => rfl, fun _ => rfl, fun _ => rfl⟩

/-! ## Describing one object -/

theorem sameShape_changeTable (t : TableId) {f : Table → Table} (s : Schema)
    (hcols : ∀ tbl, s.tables.get? t = some tbl → (f tbl).columns.Perm tbl.columns)
    (hexp : ∀ tbl, (f tbl).exportedKeys = tbl.exportedKeys)
    (himp : ∀ tbl, (f tbl).importedKeys = tbl.importedKeys) : SameShape s (s.changeTable t f) := by
  constructor
  case tableKeys => exact Roster.keys_modify _ _ _
  case columnsOf =>
    intro t'
    unfold columnsOf
    by_cases h : t' = t
    · cases ht : s.tables.get? t with
      | none => simp [changeTable, h, ht]
      | some tbl => simpa [changeTable, h, ht] using hcols tbl ht
    · simp [changeTable, h]
  case exportsOf => exact fun t' => Roster.read_modify _ t t' (Option.elim · [] _) hexp
  case importsOf => exact fun t' => Roster.read_modify _ t t' (Option.elim · [] _) himp
  all_goals intros; rfl

theorem sameSkeleton_changeTable (t : TableId) {f : Table → Table} (s : Schema)
    (hcols : ∀ tbl, s.tables.get? t = some tbl → (f tbl).columns.Perm tbl.columns)
    (hexp : ∀ tbl, (f tbl).exportedKeys = tbl.exportedKeys)
    (himp : ∀ tbl, (f tbl).importedKeys = tbl.importedKeys)
    (hcasc : ∀ tbl, (f tbl).cascades = tbl.cascades) : SameSkeleton s (s.changeTable t f) := by
  constructor
  case shape => exact sameShape_changeTable t s hcols hexp himp
  case cascades => exact fun t' => Roster.read_modify _ t t' (Option.any _) hcasc
  all_goals intros; rfl

theorem sameSkeleton_changeColumn (c : ColumnId) {f : Column → Column} (s : Schema)
    (htable : ∀ col, (f col).table = col.table) (hrank : ∀ col, (f col).rank = col.rank) :
    SameSkeleton s (s.changeColumn c f) := by
  constructor
  case shape =>
    constructor
    case columnKeys => exact Roster.keys_modify _ _ _
    case owner? => exact fun c' => Roster.read_modify _ c c' (Option.bind · _) htable
    all_goals intros; rfl
  case rank? => exact fun c' => Roster.read_modify _ c c' (Option.bind · _) hrank
  all_goals intros; rfl

theorem mappingsOf_changeRelationship (r r' : RelationshipId) {f : Relationship → Relationship}
    (s : Schema) (hm : ∀ rel, (f rel).mappings = rel.mappings) :
    (s.changeRelationship r f).mappingsOf r' = s.mappingsOf r' :=
  Roster.read_modify _ r r' (Option.elim · [] _) hm

theorem sameShape_changeRelationship (r : RelationshipId) {f : Relationship → Relationship}
    (s : Schema) (hp : ∀ rel, (f rel).parent = rel.parent) (hch : ∀ rel, (f rel).child = rel.child)
    (hm : ∀ rel, (f rel).mappings = rel.mappings) : SameShape s (s.changeRelationship r f) := by
  constructor
  case relationshipKeys => exact Roster.keys_modify _ _ _
  case parent? => exact fun r' => Roster.read_modify _ r r' (Option.bind · _) hp
  case child? => exact fun r' => Roster.read_modify _ r r' (Option.bind · _) hch
  case mappingsOf => exact fun r' => .of_eq (mappingsOf_changeRelationship r r' s hm)
  all_goals intros; rfl

theorem sameSkeleton_changeRelationship (r : RelationshipId) {f : Relationship → Relationship}
    (s : Schema) (hp : ∀ rel, (f rel).parent = rel.parent) (hch : ∀ rel, (f rel).child = rel.child)
    (hm : ∀ rel, (f rel).mappings = rel.mappings)
    (hid : ∀ rel, (f rel).identifying = rel.identifying) :
    SameSkeleton s (s.changeRelationship r f) := by
  constructor
  case shape => exact sameShape_changeRelationship r s hp hch hm
  case mappingsOf => exact fun r' => mappingsOf_changeRelationship r r' s hm
  case isIdentifying => exact fun r' => Roster.read_modify _ r r' (Option.any _) hid
  all_goals intros; rfl

/-! ## Followers -/

/-- Whether changes of the column `c` are passed to the column `fk`. -/
def PassesTo (s : Schema) (c fk : ColumnId) : Prop :=
  s.isKey c = true ∧ fk ≠ c ∧ ∃ t tbl, s.owner? c = some t ∧ s.tables.get? t = some tbl ∧
    tbl.magicEnabled = true ∧ tbl.inSecondaryChange = false ∧
      ∃ r ∈ tbl.exportedKeys, s.isLive r = true ∧ ⟨c, fk⟩ ∈ s.mappingsOf r

theorem cascades_iff : s.cascades t = true ↔
    ∃ tbl, s.tables.get? t = some tbl ∧ tbl.magicEnabled = true ∧ tbl.inSecondaryChange = false := by
  simp [cascades, Table.cascades, Option.any_eq_true]

theorem Sound.mappingOf?_eq_some_iff (hs : s.Sound) {rel : Relationship}
    (hrel : s.relationships.get? r = some rel) {m : Mapping} :
    rel.mappingOf? c = some m ↔ m ∈ s.mappingsOf r ∧ m.pk = c := by
  have hmappings : rel.mappings = s.mappingsOf r := by simp [mappingsOf, hrel]
  unfold Relationship.mappingOf?
  rw [hmappings]
  exact hs.find?_mapping_iff

/-- What the live relationships that a table exports map a column to, itself aside. -/
theorem Sound.mem_mappedTo (hs : s.Sound) :
    (fk ∈ (s.liveExportsOf t).filterMap fun r => do
      let rel ← s.relationships.get? r
      let m ← rel.mappingOf? c
      if m.fk = c then none else some m.fk) ↔
    fk ≠ c ∧ ∃ r ∈ s.exportsOf t, s.isLive r = true ∧ ⟨c, fk⟩ ∈ s.mappingsOf r := by
  rw [List.mem_filterMap]
  constructor
  · rintro ⟨r, hr, hfk⟩
    obtain ⟨rel, hrel, hfk⟩ := Option.bind_eq_some_iff.mp hfk
    obtain ⟨m, hm, hfk⟩ := Option.bind_eq_some_iff.mp hfk
    obtain ⟨hin, rfl⟩ := (hs.mappingOf?_eq_some_iff hrel).mp hm
    split at hfk
    · simp at hfk
    · rename_i hne
      obtain rfl := Option.some.inj hfk
      obtain ⟨hexported, hlive⟩ := mem_liveExportsOf.mp hr
      exact ⟨hne, r, hexported, hlive, hin⟩
  · rintro ⟨hne, r, hr, hlive, hin⟩
    obtain ⟨rel, hrel, -⟩ := mem_mappingsOf.mp hin
    have hm := (hs.mappingOf?_eq_some_iff hrel).mpr ⟨hin, rfl⟩
    exact ⟨r, mem_liveExportsOf.mpr ⟨hr, hlive⟩, by simp [hrel, hm, hne]⟩

/-- The followers of a column are the columns that its changes are passed to. -/
theorem Sound.mem_followers (hs : s.Sound) : fk ∈ s.followers c ↔ s.PassesTo c fk := by
  unfold followers
  cases howner : s.owner? c with
  | none => simp [PassesTo, howner]
  | some t =>
      dsimp only
      split
      case isTrue hkey =>
        rw [Bool.and_eq_true] at hkey
        obtain ⟨tbl, htbl, hmagic, hmode⟩ := cascades_iff.mp hkey.2
        have hexports : s.exportsOf t = tbl.exportedKeys := by simp [exportsOf, htbl]
        rw [mem_distinct, hs.mem_mappedTo, hexports]
        simp [PassesTo, howner, htbl, hkey.1, hmagic, hmode]
      case isFalse hkey =>
        refine ⟨fun h => absurd h List.not_mem_nil, ?_⟩
        rintro ⟨hk, -, t', tbl, howner', htbl, hmagic, hmode, -⟩
        obtain rfl := Option.some.inj (howner.symm.trans howner')
        exact absurd (Bool.and_eq_true_iff.mpr ⟨hk, cascades_iff.mpr ⟨tbl, htbl, hmagic, hmode⟩⟩) hkey

/-- Followers are columns of the schema. -/
theorem Sound.stored_of_passesTo (hs : s.Sound) (h : s.PassesTo c fk) :
    s.columns.contains fk = true := by
  obtain ⟨-, -, t, tbl, -, -, -, -, r, -, -, hm⟩ := h
  exact hs.fk_stored hm

end Schema

namespace Edit

open Schema

variable {s : Schema} {t : TableId} {c : ColumnId} {r : RelationshipId}

theorem describeTable_atomic {property : Property} {value : Table → PropertyValue}
    {f : Table → Table} (hcols : ∀ tbl, (f tbl).columns = tbl.columns)
    (hexp : ∀ tbl, (f tbl).exportedKeys = tbl.exportedKeys)
    (himp : ∀ tbl, (f tbl).importedKeys = tbl.importedKeys)
    (hcasc : ∀ tbl, (f tbl).cascades = tbl.cascades) :
    (describeTable t property value f).Atomic (fun _ s' => SameSkeleton s s') s := by
  unfold describeTable Atomic
  simp only [ends_bind, ends_table, ends_change, ends_raise]
  refine ⟨fun tbl _ => ?_, fun _ => .refl s⟩
  exact (sameSkeleton_changeTable t s (fun tbl _ => .of_eq (hcols tbl)) hexp himp hcasc).trans
    (SameObjects.raise _ _).sameSkeleton

theorem describeColumn_atomic {property : Property} {value : Column → PropertyValue}
    {f : Column → Column} (htable : ∀ col, (f col).table = col.table)
    (hrank : ∀ col, (f col).rank = col.rank) :
    (describeColumn c property value f).Atomic (fun _ s' => SameSkeleton s s') s := by
  unfold describeColumn Atomic
  simp only [ends_bind, ends_column, ends_change, ends_raise]
  refine ⟨fun col _ => ?_, fun _ => .refl s⟩
  exact (sameSkeleton_changeColumn c s htable hrank).trans (SameObjects.raise _ _).sameSkeleton

theorem describeRelationship_atomic {property : Property} {value : Relationship → PropertyValue}
    {f : Relationship → Relationship} (hp : ∀ rel, (f rel).parent = rel.parent)
    (hch : ∀ rel, (f rel).child = rel.child) (hm : ∀ rel, (f rel).mappings = rel.mappings)
    (hid : ∀ rel, (f rel).identifying = rel.identifying) :
    (describeRelationship r property value f).Atomic (fun _ s' => SameSkeleton s s') s := by
  unfold describeRelationship Atomic
  simp only [ends_bind, ends_relationship, ends_change, ends_raise]
  refine ⟨fun rel _ => ?_, fun _ => .refl s⟩
  exact (sameSkeleton_changeRelationship r s hp hch hm hid).trans
    (SameObjects.raise _ _).sameSkeleton

/-! ## Attributes that followers take over -/

theorem followers_stored (hs : s.Sound) {fk : ColumnId} (h : fk ∈ s.followers c) :
    s.columns.contains fk = true :=
  hs.stored_of_passesTo (hs.mem_followers.mp h)

/-- A loop over stored columns whose rounds only describe columns. -/
theorem forM_describes {f : ColumnId → Edit Unit} {cs : List ColumnId} (hs : s.Sound)
    (hcs : ∀ c ∈ cs, s.columns.contains c = true)
    (round : ∀ c s₁, s₁.Sound → s₁.columns.contains c = true →
      (f c).Ends (fun _ s' => SameSkeleton s₁ s') (fun _ _ => False) s₁) :
    (cs.forM f).Ends (fun _ s' => SameSkeleton s s') (fun _ _ => False) s := by
  refine (Ends.forM (I := fun cs s₁ => SameSkeleton s s₁ ∧
    ∀ c ∈ cs, s₁.columns.contains c = true) (fun c cs s₁ h₁ => ?_) ⟨.refl s, hcs⟩).imp
    fun _ _ h => h.1
  obtain ⟨h, hcs⟩ := h₁
  refine (round c s₁ (h.sound hs) (hcs c (List.mem_cons_self ..))).imp fun _ s₂ h₂ => ⟨h.trans h₂, ?_⟩
  intro c' hc'
  rw [h₂.shape.contains_column]
  exact hcs c' (List.mem_cons_of_mem _ hc')

/-- Renaming a stored column never fails. -/
theorem renameWithin_ends (name : String) (depth : Nat) : ∀ {s : Schema} {c : ColumnId}, s.Sound →
    s.columns.contains c = true →
    (renameWithin name depth c).Ends (fun _ s' => SameSkeleton s s') (fun _ _ => False) s := by
  -- columns may follow each other in a circle, which the depth cuts
  induction depth with
  | zero => exact fun {s} _ _ _ => .refl s
  | succ depth ih =>
      intro s c hs hc
      obtain ⟨col, hcol⟩ := (Roster.contains_iff _ _).mp hc
      unfold renameWithin
      simp only [ends_bind, ends_column_of hcol, ends_change, ends_raise]
      have h₁ : SameSkeleton s ((s.changeColumn c fun col => { col with name }).raise
          (.propertyChanged (.column c) .name (.text col.name) (.text name))) :=
        (sameSkeleton_changeColumn c (f := fun col => { col with name }) s (fun _ => rfl)
          fun _ => rfl).trans (SameObjects.raise _ _).sameSkeleton
      have hs₁ := h₁.sound hs
      have hc₁ := (h₁.shape.contains_column c).trans hc
      split
      · simp only [ends_bind, ends_followers_of hs₁ hc₁]
        refine (forM_describes hs₁ (fun fk hfk => followers_stored hs₁ hfk)
          fun fk s₂ hs₂ hfk => ?_).imp fun _ s' h => h₁.trans h
        obtain ⟨col', hcol'⟩ := (Roster.contains_iff _ _).mp hfk
        simp only [ends_bind, ends_column_of hcol']
        split
        · exact ih hs₂ hfk
        · exact SameSkeleton.refl s₂
      · exact h₁

theorem setColumnName_atomic (hs : s.Sound) (c : ColumnId) (name : String) :
    (setColumnName c name).Atomic (fun _ s' => SameSkeleton s s') s := by
  unfold setColumnName Atomic
  simp only [ends_bind, ends_discard, ends_column]
  refine ⟨fun col hcol => ?_, fun _ => .refl s⟩
  simp only [ends_followers_of hs (Roster.contains_of_get? hcol), ends_get]
  refine (ends_compoundIf_amid _ _ fun s₁ h₁ => renameWithin_ends name _ (hs.of_sameObjects h₁)
    (h₁.columns ▸ Roster.contains_of_get? hcol)).total ?_
  rintro _ s' ⟨s₁, s₂, h₁, h, h₂⟩
  exact (h₁.sameSkeleton.trans h).trans h₂.sameSkeleton

/-- Changing a shared attribute of a stored column never fails. -/
theorem setSharedWithin_ends (a : SharedAttribute) (depth : Nat) : ∀ {s : Schema} {c : ColumnId},
    s.Sound → s.columns.contains c = true →
    (setSharedWithin a depth c).Ends (fun _ s' => SameSkeleton s s') (fun _ _ => False) s := by
  induction depth with
  | zero => exact fun {s} _ _ _ => .refl s
  | succ depth ih =>
      intro s c hs hc
      obtain ⟨col, hcol⟩ := (Roster.contains_iff _ _).mp hc
      unfold setSharedWithin
      simp only [ends_bind, ends_column_of hcol, ends_change, ends_raise]
      have h₁ : SameSkeleton s ((s.changeColumn c a.write).raise
          (.propertyChanged (.column c) a.property (a.read col) (a.read (a.write col)))) :=
        (sameSkeleton_changeColumn c s (fun _ => by cases a <;> rfl) fun _ => by cases a <;> rfl).trans
          (SameObjects.raise _ _).sameSkeleton
      have hs₁ := h₁.sound hs
      have hc₁ := (h₁.shape.contains_column c).trans hc
      split
      · simp only [ends_bind, ends_followers_of hs₁ hc₁]
        exact (forM_describes hs₁ (fun fk hfk => followers_stored hs₁ hfk)
          fun fk s₂ hs₂ hfk => ih hs₂ hfk).imp fun _ s' h => h₁.trans h
      · exact h₁

theorem setShared_atomic (hs : s.Sound) (a : SharedAttribute) (c : ColumnId) :
    (setShared a c).Atomic (fun _ s' => SameSkeleton s s') s := by
  unfold setShared Atomic
  simp only [ends_bind, ends_discard, ends_column]
  refine ⟨fun col hcol => ?_, fun _ => .refl s⟩
  simp only [ends_followers_of hs (Roster.contains_of_get? hcol), ends_get]
  refine (ends_compoundIf_amid _ _ fun s₁ h₁ => setSharedWithin_ends a _ (hs.of_sameObjects h₁)
    (h₁.columns ▸ Roster.contains_of_get? hcol)).total ?_
  rintro _ s' ⟨s₁, s₂, h₁, h, h₂⟩
  exact (h₁.sameSkeleton.trans h).trans h₂.sameSkeleton

end Edit

end KeyedSchema
