import KeyedSchema.Proofs.Confinement

/-!
# Covering — cascades stay within compound edits

An operation decides before it starts whether its changes will reach tables that it was not given:
whether another table follows the key, whether a column has followers, whether a mapping leads away
from it. If so, everything happens within a compound edit. If not, the operation takes the same way,
and along it every question for tables to go on to comes back empty.
-/

namespace KeyedSchema

namespace Edit

open Schema

variable {α β : Type} {moved : Option (RelationshipId × Option TableId)} {ts : List TableId}
  {s : Schema} {t : TableId} {c : ColumnId}

/-- Whether an edit tells, outside of compound edits, of columns of the given tables only. -/
def StaysWithin (x : Edit α) (ts : List TableId) (s : Schema) : Prop :=
  x.Ends (fun _ s' => Within ts s s') (fun _ s' => Within ts s s') s

/-- Whether an edit tells of columns of other tables in a compound edit at most, which ends it. -/
def Encloses (x : Edit α) (ts : List TableId) (s : Schema) : Prop :=
  x.Ends (fun _ s' => Covers ts s s') (fun _ s' => Covers ts s s') s

theorem StaysWithin.encloses {x : Edit α} (h : x.StaysWithin ts s) : x.Encloses ts s :=
  Ends.mono h (fun _ _ h => .within h) fun _ _ h => .within h

theorem encloses_compound {x : Edit α} (description : String)
    (h : x.Passes moved (s.signal (.compoundEditStarted description))) :
    (compound description x).Encloses ts s := by
  unfold Encloses
  rw [ends_compound]
  exact Ends.mono h (fun _ _ hbody => .compound (.refl s) description hbody rfl)
    fun _ _ hbody => .compound (.refl s) description hbody rfl

/-- An edit that is compound unless it stays within the given tables. -/
theorem encloses_compoundIf {x : Edit α} {when : Bool} (description : String)
    (hcompound : x.Passes none (s.signal (.compoundEditStarted description)))
    (hplain : when = false → x.StaysWithin ts s) : (compoundIf when description x).Encloses ts s := by
  unfold compoundIf
  split
  · exact encloses_compound description hcompound
  · rename_i hwhen
    exact (hplain (Bool.eq_false_iff.mpr hwhen)).encloses

/-- What comes first may tell something, too. -/
theorem StaysWithin.after {s' : Schema} {x : Edit α} (h : x.StaysWithin ts s')
    (hfirst : Within ts s s') : x.Ends (fun _ s'' => Within ts s s'') (fun _ s'' => Within ts s s'') s' :=
  Ends.mono h (fun _ _ h => hfirst.trans h) fun _ _ h => hfirst.trans h

/-- A refused edit tells nothing. -/
theorem Atomic.staysWithin {x : Edit α} {Q : α → Schema → Prop} (h : x.Atomic Q s)
    (hQ : ∀ a s', Q a s' → Within ts s s') : x.StaysWithin ts s := by
  refine Ends.mono h hQ fun _ s' huntouched => ?_
  rw [huntouched.same]
  exact .of_aside rfl (.of_same rfl rfl)

/-! ### Descriptions -/

theorem staysWithin_describeTable (t : TableId) (property : Property)
    (value : Table → PropertyValue) (f : Table → Table) (s : Schema) :
    (describeTable t property value f).StaysWithin ts s := by
  unfold describeTable StaysWithin
  simp only [ends_bind, ends_table, ends_change, ends_raise]
  exact ⟨fun tbl _ => .aside (by rfl) rfl rfl rfl, fun _ => .refl s⟩

theorem staysWithin_describeRelationship (r : RelationshipId) (property : Property)
    (value : Relationship → PropertyValue) (f : Relationship → Relationship) (s : Schema) :
    (describeRelationship r property value f).StaysWithin ts s := by
  unfold describeRelationship StaysWithin
  simp only [ends_bind, ends_relationship, ends_change, ends_raise]
  exact ⟨fun rel _ => .aside (by rfl) rfl rfl rfl, fun _ => .refl s⟩

theorem staysWithin_describeColumn (hc : ∀ t, s.owner? c = some t → t ∈ ts) (hs : s.Sound)
    (ht : s.Tidy) (property : Property) (value : Column → PropertyValue) (f : Column → Column) :
    (describeColumn c property value f).StaysWithin ts s := by
  unfold describeColumn StaysWithin
  simp only [ends_bind, ends_column, ends_change, ends_raise]
  refine ⟨fun col hcol => ?_, fun _ => .refl s⟩
  obtain ⟨t, howner⟩ := hs.owned c (Roster.contains_of_get? hcol)
  exact .column (ht.home?_of_owner howner) (hc t howner) f property _ _

/-- A change that leaves owner and rank of a column alone leaves its followers alone. -/
theorem followers_describe {col : Column} (hcol : s.columns.get? c = some col) {f : Column → Column}
    (howner : (f col).table = col.table) (hrank : (f col).rank = col.rank) (e : Event) :
    ((s.changeColumn c f).raise e).followers c = s.followers c := by
  have ho := SameObjects.raise e (s.changeColumn c f)
  have hget : (s.changeColumn c f).columns.get? c = some (f col) := by
    simp [changeColumn, hcol]
  refine followers_congr ho.tables ho.relationships ?_ ?_
  · rw [Schema.owner?, Schema.owner?, ho.columns, hget, hcol, Option.bind_some, Option.bind_some,
      howner]
  · rw [rank?, rank?, ho.columns, hget, hcol, Option.bind_some, Option.bind_some, hrank]

/-- A column without followers passes its name on to no other column. -/
theorem staysWithin_renameWithin (hc : s.home? c = some t) (ht : t ∈ ts) (hf : s.followers c = [])
    (name : String) (depth : Nat) : (renameWithin name depth c).StaysWithin ts s := by
  cases depth with
  | zero => exact .refl s
  | succ depth =>
      unfold renameWithin StaysWithin
      simp only [ends_bind, ends_column, ends_change, ends_raise]
      refine ⟨fun col hcol => ?_, fun _ => .refl s⟩
      have htold : Within ts s ((s.changeColumn c fun col => { col with name }).raise
          (.propertyChanged (.column c) .name (.text col.name) (.text name))) :=
        .column hc ht _ _ _ _
      split
      · rw [ends_bind]
        refine followers_ends ?_ fun _ => htold
        rw [followers_describe hcol rfl rfl, hf, ends_forM_nil]
        exact htold
      · exact htold

/-- A column without followers passes its attributes on to no other column. -/
theorem staysWithin_setSharedWithin (hc : s.home? c = some t) (ht : t ∈ ts) (hf : s.followers c = [])
    (a : SharedAttribute) (depth : Nat) : (setSharedWithin a depth c).StaysWithin ts s := by
  cases depth with
  | zero => exact .refl s
  | succ depth =>
      unfold setSharedWithin StaysWithin
      simp only [ends_bind, ends_column, ends_change, ends_raise]
      refine ⟨fun col hcol => ?_, fun _ => .refl s⟩
      have htold : Within ts s ((s.changeColumn c a.write).raise
          (.propertyChanged (.column c) a.property (a.read col) (a.read (a.write col)))) :=
        .column hc ht _ _ _ _
      split
      · rw [ends_bind]
        refine followers_ends ?_ fun _ => htold
        rw [followers_describe hcol (by cases a <;> rfl) (by cases a <;> rfl), hf, ends_forM_nil]
        exact htold
      · exact htold

theorem encloses_setColumnName (hc : ∀ t, s.owner? c = some t → t ∈ ts) (hs : s.Sound) (ht : s.Tidy)
    (name : String) : (setColumnName c name).Encloses ts s := by
  unfold setColumnName Encloses
  simp only [ends_bind, ends_discard, ends_column]
  refine ⟨fun col hcol => followers_ends ?_ fun _ => .refl s, fun _ => .refl s⟩
  rw [ends_get]
  obtain ⟨t, howner⟩ := hs.owned c (Roster.contains_of_get? hcol)
  refine encloses_compoundIf _ (passes_renameWithin name _ c _) fun hnone => ?_
  exact staysWithin_renameWithin (ht.home?_of_owner howner) (hc t howner) (by simpa using hnone) name _

theorem encloses_setShared (hc : ∀ t, s.owner? c = some t → t ∈ ts) (hs : s.Sound) (ht : s.Tidy)
    (a : SharedAttribute) : (setShared a c).Encloses ts s := by
  unfold setShared Encloses
  simp only [ends_bind, ends_discard, ends_column]
  refine ⟨fun col hcol => followers_ends ?_ fun _ => .refl s, fun _ => .refl s⟩
  rw [ends_get]
  obtain ⟨t, howner⟩ := hs.owned c (Roster.contains_of_get? hcol)
  refine encloses_compoundIf _ (passes_setSharedWithin a _ c _) fun hnone => ?_
  exact staysWithin_setSharedWithin (ht.home?_of_owner howner) (hc t howner) (by simpa using hnone) a _

/-! ### Keys -/

/-- Normalizing the key of a given table tells of its own columns, and of the order of mappings. -/
theorem normalizeKey_within (ht : t ∈ ts) (hhomes : ∀ c ∈ s.columnsOf t, s.home? c = some t)
    (placed : Option ColumnId) : (normalizeKey t placed).Ends
      (fun _ s' => Within ts s s' ∧ SameFrame s s') (fun _ s' => Within ts s s') s := by
  have hwithin : (normalizeKey t placed).Ends (fun _ => Within ts s) (fun _ => Within ts s) s :=
    normalizeKey_keeps (.refl s) (within_renumber ht hhomes placed) fun r s' h =>
      h.trans (within_syncMappingOrder r s')
  exact (hwithin.and (normalizeKey_reranks t placed s)).mono (fun _ _ h => ⟨h.1, h.2.sameFrame⟩)
    fun _ _ h => h.1

theorem staysWithin_normalizeKey (ht : t ∈ ts) (hhomes : ∀ c ∈ s.columnsOf t, s.home? c = some t)
    (placed : Option ColumnId) : (normalizeKey t placed).StaysWithin ts s :=
  (normalizeKey_within ht hhomes placed).mono (fun _ _ h => h.1) fun _ _ h => h

/-- In a table that is alone no mapping follows a change of rank. -/
theorem staysWithin_afterRankChange (h : s.Alone ts t) (howner : s.owner? c = some t)
    (promote : ColumnId → Edit Unit) (old new : Option Nat) :
    (afterRankChange promote c old new).StaysWithin ts s := by
  unfold afterRankChange StaysWithin
  simp only [ends_bind, ends_ownerOf_of howner, ends_table]
  refine ⟨fun tbl htbl => ?_, fun _ => .refl s⟩
  split
  · rename_i hcascades
    simp only [ends_bind, ends_ask]
    refine (normalizeKey_within h.given h.homes _).mono (fun _ s₁ h₁ => ?_) fun _ _ h => h
    obtain ⟨hnumbered, hframe⟩ := h₁
    have hnone : s₁.liveExportsOf t = [] := by
      rw [hframe.liveExportsOf]
      exact h.liveExportsOf (by simpa [Schema.cascades, htbl] using hcascades)
    rw [hnone]
    split <;> exact hnumbered
  · exact .refl s

theorem staysWithin_setRank (h : s.Alone ts t) (howner : s.owner? c = some t)
    (hhome : s.home? c = some t) (promote : ColumnId → Edit Unit) (rank : Option Nat) :
    (setRank promote c rank).StaysWithin ts s := by
  unfold setRank StaysWithin
  simp only [ends_bind, ends_column]
  refine ⟨fun col hcol => ?_, fun _ => .refl s⟩
  split
  · rw [ends_bind, ends_change]
    have hre := reranks_changeRank c col.rank rank s
    exact (staysWithin_afterRankChange (h.changeRank c _ _) ((hre.owner? c).trans howner) promote
      col.rank rank).after (.column hhome h.given _ _ _ _)
  · exact .refl s

theorem staysWithin_promote (h : s.Alone ts t) (howner : s.owner? c = some t)
    (hhome : s.home? c = some t) : (promote c).StaysWithin ts s := by
  unfold promote StaysWithin
  rw [ends_bind, ends_get]
  cases s.tables.size with
  | zero => exact .refl s
  | succ depth =>
      unfold promoteWithin
      simp only [ends_bind, ends_column]
      refine ⟨fun col _ => ?_, fun _ => .refl s⟩
      split
      · simp only [ends_bind, ends_ownerOf_of howner, ends_discard, ends_table, ends_ask]
        exact ⟨fun tbl _ => staysWithin_setRank h howner hhome (promoteWithin depth) _, fun _ => .refl s⟩
      · exact .refl s

/-- In a sound and tidy schema a given table is alone if no other table follows its key. -/
theorem alone_of (ht : t ∈ ts) (hs : s.Sound) (htidy : s.Tidy) (h : s.hasKeyDependents t = false) :
    s.Alone ts t :=
  ⟨ht, fun _ => htidy.home?_of_listed hs, h⟩

theorem encloses_setPrimaryKeySeq (hc : ∀ t, s.owner? c = some t → t ∈ ts) (hs : s.Sound)
    (ht : s.Tidy) (rank : Option Nat) : (setPrimaryKeySeq c rank).Encloses ts s := by
  unfold setPrimaryKeySeq Encloses
  simp only [ends_bind, ends_ownerOf, ends_ask, ends_column]
  refine ⟨fun t howner => ⟨fun col _ => ?_, fun _ => .refl s⟩, fun _ => .refl s⟩
  refine encloses_compoundIf _ (passes_setRank passes_promote c rank _) fun hnone => ?_
  exact staysWithin_setRank (alone_of (hc t howner) hs ht hnone) howner (ht.home?_of_owner howner) _ _

theorem staysWithin_normalizePrimaryKey (ht : t ∈ ts) (hs : s.Sound) (htidy : s.Tidy) :
    (normalizePrimaryKey t).StaysWithin ts s := by
  unfold normalizePrimaryKey StaysWithin
  simp only [ends_bind, ends_discard, ends_table]
  exact ⟨fun tbl _ => staysWithin_normalizeKey ht (fun _ => htidy.home?_of_listed hs) none,
    fun _ => .refl s⟩

/-! ### Columns that come, go and move -/

theorem staysWithin_insertColumnAt (ht : t ∈ ts) (hs : s.Sound) (htidy : s.Tidy) {i : Nat}
    {col : Column} (hi : ∀ tbl, s.tables.get? t = some tbl → i ≤ tbl.columns.length)
    (hdep : col.isKey = true → s.hasKeyDependents t = false) :
    (insertColumnAt t i col).StaysWithin ts s := by
  unfold insertColumnAt placeColumn StaysWithin
  simp only [bind_assoc, pure_bind, ends_bind, ends_ask, ends_discard, ends_table, ends_change]
  refine ⟨fun tbl htbl => ?_, fun _ => .refl s⟩
  have hcontains := Roster.contains_of_get? htbl
  have hindex := hi tbl htbl
  have hplaced : Within ts s (s.placeColumn t i col) := by
    have hhomes : KeepsHomes s (s.placeColumn t i col) := htidy.keepsHomes_insert (origins_raise _ _)
    exact ⟨hhomes, Voices.raise ⟨rfl, fun _ => ⟨t, ht, rfl⟩⟩ rfl rfl⟩
  split
  · rename_i hkey
    have hs₁ := hs.placeColumn hcontains (by simpa [columnsOf, htbl] using hindex) col
    have ht₁ := htidy.placeColumn htbl hindex col
    have halone : (s.placeColumn t i col).Alone ts t := alone_of ht hs₁ ht₁
      (((sameFrame_placeColumn t i col s).hasKeyDependents t).trans (hdep hkey))
    have howner : (s.placeColumn t i col).owner? s.nextColumn = some t := by
      simp [owner?_placeColumn]
    rw [ends_bind]
    exact (staysWithin_afterRankChange halone howner promote none col.rank).after hplaced
  · exact hplaced

theorem encloses_insertColumn (ht : t ∈ ts) (hs : s.Sound) (htidy : s.Tidy) (i : Nat) (col : Column) :
    (insertColumn t i col).Encloses ts s := by
  unfold insertColumn Encloses
  simp only [ends_bind, ends_table]
  refine ⟨fun tbl htbl => ?_, fun _ => .refl s⟩
  split
  · exact .refl s
  · rename_i hi
    have hindex : i ≤ tbl.columns.length := Nat.le_of_not_lt hi
    simp only [ends_bind, ends_ask]
    refine encloses_compoundIf _
      (passes_insertColumnAt (s := s.signal _) htbl hindex col) fun hnone => ?_
    refine staysWithin_insertColumnAt ht hs htidy (fun tbl' htbl' => ?_) fun hkey => ?_
    · obtain rfl := Option.some.inj (htbl.symm.trans htbl')
      exact hindex
    · rwa [hkey, Bool.true_and] at hnone

theorem encloses_addColumn (ht : t ∈ ts) (hs : s.Sound) (htidy : s.Tidy) (col : Column) :
    (addColumn t col).Encloses ts s := by
  unfold addColumn Encloses
  simp only [ends_bind, ends_table]
  exact ⟨fun tbl _ => encloses_insertColumn ht hs htidy _ col, fun _ => .refl s⟩

/-- A column that its table's exported relationships do not map has nothing that depends on it. -/
theorem dependentsOf_eq_nil (hs : s.Sound) (howner : s.owner? c = some t)
    (h : ((s.exportsOf t).any fun r => (s.relationships.get? r).any fun rel => rel.mapsFrom c) = false) :
    s.dependentsOf c = [] := by
  refine List.eq_nil_iff_forall_not_mem.mpr fun f hf => ?_
  obtain ⟨r, hlive, m, hm, rfl, -⟩ := (hs.mem_dependentsOf f c).mp hf
  -- a live relationship is exported by the table that owns the columns it maps from
  obtain ⟨p, ch, hp, -, hexported, -⟩ := isLive_iff.mp hlive
  obtain rfl := Option.some.inj ((hs.pk_owner hm hp).symm.trans howner)
  obtain ⟨rel, hrel, hmem⟩ := mem_mappingsOf.mp hm
  have hnot := List.any_eq_false.mp h r hexported
  rw [hrel, Option.any_some] at hnot
  exact hnot (mapsFrom_iff.mpr ⟨m, hmem, rfl⟩)

theorem staysWithin_removeColumnCascade (ht : t ∈ ts) (hs : s.Sound) (htidy : s.Tidy)
    (howner : s.owner? c = some t) (hnone : s.dependentsOf c = []) :
    (removeColumnCascade c).StaysWithin ts s := by
  unfold removeColumnCascade removeColumnWithin StaysWithin
  simp only [ends_bind, ends_get, ends_ownerOf_of howner, ends_table, ends_require, ends_column,
    ends_change, ends_ask]
  refine ⟨fun tbl htbl => ⟨fun i hi => ⟨fun col hcol => ?_, fun _ => .refl s⟩, fun _ => .refl s⟩,
    fun _ => .refl s⟩
  rw [dependentsOf_dropColumn, hnone, ends_forM_nil]
  have hdropped : Within ts s (s.dropColumn t i c) := by
    have hhomes : KeepsHomes s (s.dropColumn t i c) := keepsHomes_of_origins (origins_raise _ _)
    exact ⟨hhomes, Voices.raise ⟨rfl, fun _ => ⟨t, ht, rfl⟩⟩ rfl rfl⟩
  have hcut : Within ts s ((s.dropColumn t i c).unmapColumn c) :=
    hdropped.trans (within_unmapColumn c _)
  split
  · simp only [ends_bind, ends_table]
    refine ⟨fun tbl' _ => ?_, fun _ => hcut⟩
    split
    · simp only [ends_bind, ends_pure]
      refine (staysWithin_normalizeKey ht (fun c' hc' => hcut.homes c' t ?_) none).after hcut
      -- the columns that are left were there before
      have hcontains := Roster.contains_of_get? hcol
      have heq : s.cut c = (s.dropColumn t i c).unmapColumn c := by
        have hidx : (s.columnsOf t).idxOf? c = some i := by simpa [columnsOf, htbl] using hi
        simp [Schema.cut, howner, hidx]
      rw [← heq, hs.columnsOf_cut hcontains] at hc'
      exact htidy.home?_of_listed hs (List.mem_filter.mp hc').1
    · exact hcut
  · exact hcut

theorem encloses_removeColumn (hc : ∀ t, s.owner? c = some t → t ∈ ts) (hs : s.Sound) (ht : s.Tidy) :
    (removeColumn c).Encloses ts s := by
  unfold removeColumn Encloses
  simp only [ends_bind, ends_ownerOf, ends_discard, ends_table, ends_get]
  refine ⟨fun t howner => ⟨fun tbl _ => ?_, fun _ => .refl s⟩, fun _ => .refl s⟩
  split
  · exact .refl s
  · simp only [ends_bind, ends_column]
    refine ⟨fun col _ => ?_, fun _ => .refl s⟩
    refine encloses_compoundIf _ (passes_removeColumnCascade c _) fun hnone => ?_
    exact staysWithin_removeColumnCascade (hc t howner) hs ht howner (dependentsOf_eq_nil hs howner hnone)

theorem staysWithin_moveColumn (hc : ∀ t, s.owner? c = some t → t ∈ ts) (hs : s.Sound) (ht : s.Tidy)
    (index : Nat) : (moveColumn c index).StaysWithin ts s := by
  refine ends_moveColumn (Q := Within ts s) (.refl s) fun t tbl i howner htbl hindex hi => ?_
  have hgiven := hc t howner
  have hmove : Within ts s (s.relocated t c i index) := by
    have hhomes : KeepsHomes s (s.relocated t c i index) :=
      keepsHomes_of_origins ((origins_raise _ _).trans (origins_raise _ _))
    exact ⟨hhomes, voices_relocated ⟨rfl, fun _ => ⟨t, hgiven, rfl⟩⟩
      ⟨rfl, fun _ => ⟨t, hgiven, rfl⟩⟩ s⟩
  have hget : tbl.columns[i]? = some c := by
    obtain ⟨hlt, heq, -⟩ := List.idxOf?_eq_some_iff.mp hi
    exact List.getElem?_eq_some_iff.mpr ⟨hlt, heq⟩
  have hs₁ : (s.relocated t c i index).Sound := (sameSkeleton_move htbl hget hindex _ _).sound hs
  have heffects : Effects none s (s.relocated t c i index) := effects_relocated ht htbl hi hindex
  have ht₁ : (s.relocated t c i index).Tidy := heffects.tidy ht
  exact ⟨hmove, (staysWithin_normalizeKey hgiven (fun _ => ht₁.home?_of_listed hs₁) none).after hmove⟩

/-! ### Relationships -/

theorem staysWithin_setParent (r : RelationshipId) (new : Option TableId) (s : Schema) :
    (setParent r new).StaysWithin ts s := by
  refine (setParent_atomic s r new).staysWithin fun _ _ h => ?_
  obtain ⟨-, -, -, rfl⟩ := h
  exact .aside (by rfl) rfl rfl rfl

theorem staysWithin_setChild (r : RelationshipId) (new : Option TableId) (s : Schema) :
    (setChild r new).StaysWithin ts s := by
  refine (setChild_atomic s r new).staysWithin fun _ _ h => ?_
  obtain ⟨-, -, -, rfl⟩ := h
  exact .aside (by rfl) rfl rfl rfl

theorem staysWithin_addExportedKey (t : TableId) (r : RelationshipId) (s : Schema) :
    (addExportedKey t r).StaysWithin ts s := by
  refine (addExportedKey_atomic s t r).staysWithin fun _ _ h => ?_
  obtain ⟨-, ⟨-, rfl⟩ | ⟨-, -, rfl⟩⟩ := h
  · exact .refl _
  · exact .aside (by rfl) rfl rfl rfl

theorem staysWithin_addImportedKey (t : TableId) (r : RelationshipId) (s : Schema) :
    (addImportedKey t r).StaysWithin ts s := by
  refine (addImportedKey_atomic s t r).staysWithin fun _ _ h => ?_
  obtain ⟨-, ⟨-, rfl⟩ | ⟨-, -, rfl⟩⟩ := h
  · exact .refl _
  · exact .aside (by rfl) rfl rfl rfl

theorem encloses_detach (r : RelationshipId) (s : Schema) : (detach r).Encloses ts s := by
  unfold detach Encloses
  simp only [ends_bind, ends_relationship]
  refine ⟨fun rel _ => ?_, fun _ => .refl s⟩
  have hbody : ∀ s₁, (detachCascade r).Passes none s₁ := passes_detachCascade r
  exact encloses_compound _ (hbody _)

theorem encloses_removeExportedKey (t : TableId) (r : RelationshipId) (s : Schema) :
    (removeExportedKey t r).Encloses ts s := by
  unfold removeExportedKey Encloses
  simp only [ends_bind, ends_table]
  refine ⟨fun tbl _ => ?_, fun _ => .refl s⟩
  split
  · exact .refl s
  · simp only [ends_bind, ends_get]
    split
    · rw [ends_bind]
      exact encloses_detach r s
    · simp only [ends_bind, ends_discard, ends_relationship, ends_change, ends_pure]
      exact ⟨fun _ _ => .within (within_deregisterExported r s), fun _ => .refl s⟩

theorem encloses_removeImportedKey (t : TableId) (r : RelationshipId) (s : Schema) :
    (removeImportedKey t r).Encloses ts s := by
  unfold removeImportedKey Encloses
  simp only [ends_bind, ends_table]
  refine ⟨fun tbl _ => ?_, fun _ => .refl s⟩
  split
  · exact .refl s
  · simp only [ends_bind, ends_get]
    split
    · rw [ends_bind]
      exact encloses_detach r s
    · simp only [ends_bind, ends_discard, ends_relationship, ends_change, ends_pure]
      exact ⟨fun _ _ => .within (within_deregisterImported r s), fun _ => .refl s⟩

theorem staysWithin_discardRelationship (r : RelationshipId) (s : Schema) :
    (discardRelationship r).StaysWithin ts s := by
  unfold discardRelationship eraseRelationship StaysWithin
  simp only [ends_bind, ends_discard, ends_relationship, ends_change, ends_pure]
  refine ⟨fun rel _ => ?_, fun _ => .refl s⟩
  have hcleared : Within ts s ((s.deregisterExported r).deregisterImported r |>.clearMappings r) :=
    ((within_deregisterExported r s).trans (within_deregisterImported r _)).trans
      (within_clearMappings r _)
  refine ⟨fun rel' _ => hcleared.trans ?_, fun _ => hcleared⟩
  exact .of_aside rfl (.of_same rfl rfl)

theorem encloses_removeRelationship (r : RelationshipId) (s : Schema) :
    (removeRelationship r).Encloses ts s := by
  unfold removeRelationship Encloses
  simp only [ends_bind, ends_discard, ends_relationship, ends_get]
  refine ⟨fun rel _ => ?_, fun _ => .refl s⟩
  split
  · exact encloses_detach r s
  · exact (staysWithin_discardRelationship r s).encloses

/-! ### Mappings -/

theorem staysWithin_pushMapping {m : Mapping} {joinKey : Bool} (r : RelationshipId)
    (h : joinKey = true → s.Alone ts t) (howner : s.owner? m.fk = some t)
    (hhome : s.home? m.fk = some t) : (pushMapping r m joinKey).StaysWithin ts s := by
  unfold pushMapping StaysWithin
  simp only [ends_bind, ends_discard, ends_relationship, ends_change]
  refine ⟨fun rel _ => ?_, fun _ => .refl s⟩
  have happended : Within ts s (s.appendMapping r m) := .aside (by rfl) rfl rfl rfl
  -- bringing the mappings into order tells of no column
  have hsync : ∀ s₁, Within ts s s₁ → (do
      let t ← ownerOf m.pk
      if (← get).isLive r then
        if (← table t).cascades then syncMappingOrder r : Edit Unit).Ends
          (fun _ s' => Within ts s s') (fun _ s' => Within ts s s') s₁ := by
    intro s₁ h₁
    simp only [ends_bind, ends_ownerOf, ends_get]
    refine ⟨fun t _ => ?_, fun _ => h₁⟩
    split
    · simp only [ends_bind, ends_table]
      refine ⟨fun tbl _ => ?_, fun _ => h₁⟩
      split
      · exact syncMappingOrder_ends (h₁.trans (within_syncMappingOrder r s₁)) fun _ => h₁
      · exact h₁
    · exact h₁
  split
  · rename_i hjoin
    have halone : (s.appendMapping r m).Alone ts t := (h hjoin).keep (sameFrame_appendMapping r m s)
      (origins_raise _ _) (columnsOf_appendMapping r m s t)
    rw [ends_bind]
    exact ((staysWithin_promote halone ((owner?_appendMapping r m s m.fk).trans howner)
      (happended.homes _ _ hhome)).after happended).mono (fun _ => hsync) fun _ _ h => h
  · exact hsync _ happended

theorem encloses_addMapping {pk fk : ColumnId} (hfk : ∀ t, s.owner? fk = some t → t ∈ ts) (hs : s.Sound)
    (ht : s.Tidy) (r : RelationshipId) : (addMapping r pk fk).Encloses ts s := by
  unfold addMapping Encloses
  simp only [ends_bind, ends_relationship]
  refine ⟨fun rel _ => ?_, fun _ => .refl s⟩
  split
  · rename_i parent child hp hch
    rw [ends_bind, ends_discard]
    refine ends_requireKeyColumn parent pk (fun key _ _ _ => ?_) fun _ => .refl s
    simp only [ends_bind, ends_column]
    refine ⟨fun col hcol => ?_, fun _ => .refl s⟩
    split
    · exact .refl s
    · rename_i hchild
      split
      · exact .refl s
      · have howner : s.owner? fk = some child := by simpa [Schema.owner?, hcol] using hchild
        rw [ends_bind, ends_ask]
        refine encloses_compoundIf _ (passes_pushMapping r ⟨pk, fk⟩ _ _) fun hnone => ?_
        refine staysWithin_pushMapping r (fun hjoin => ?_) howner (ht.home?_of_owner howner)
        rw [hjoin, Bool.true_and] at hnone
        exact alone_of (hfk child howner) hs ht hnone
  · exact .refl s

theorem staysWithin_removeMapping (r : RelationshipId) (pk : ColumnId) (s : Schema) :
    (removeMapping r pk).StaysWithin ts s := by
  unfold removeMapping StaysWithin
  simp only [ends_bind, ends_relationship]
  refine ⟨fun rel _ => ?_, fun _ => .refl s⟩
  split
  · simp only [ends_bind, ends_change, ends_pure]
    exact .aside (by rfl) rfl rfl rfl
  · exact .refl s

theorem encloses_mapPrimaryKeyColumn (r : RelationshipId) (pk : ColumnId) (s : Schema) :
    (mapPrimaryKeyColumn r pk).Encloses ts s := by
  unfold mapPrimaryKeyColumn Encloses
  simp only [ends_bind, ends_relationship, ends_get]
  refine ⟨fun rel _ => ?_, fun _ => .refl s⟩
  split
  · exact .refl s
  · simp only [ends_bind, ends_require]
    refine ⟨fun parent _ => ?_, fun _ => .refl s⟩
    refine ends_requireKeyColumn parent pk (fun key _ _ _ => ?_) fun _ => .refl s
    split
    · exact .refl s
    · have hbody : ∀ s₁, (adoptOrCreate promote r pk).Passes none s₁ :=
        passes_adoptOrCreate passes_promote r pk
      exact encloses_compound _ (hbody _)

/-- A scope that is a compound edit. -/
theorem encloses_within_compound (description : String) {body : Edit α}
    (h : ∀ s, body.Passes moved s) (s : Schema) :
    (within (.compound description) body).Encloses ts s := by
  unfold within enter leave Encloses
  simp only [ends_bind, ends_change, ends_pure, ends_attempt, ends_ofOutcome]
  refine (h _).mono (fun a s₁ h₁ => ?_) fun e s₁ h₁ => ?_
  all_goals
    have hdone : Covers ts s (s₁.signal .compoundEditEnded) := .compound (.refl s) description h₁ rfl
    exact ⟨fun _ _ => hdone, fun _ _ => hdone⟩

theorem encloses_attachRelationship (r : RelationshipId) (parent child : TableId) (auto : Bool)
    (s : Schema) : (attachRelationship r parent child auto).Encloses ts s := by
  unfold attachRelationship Encloses
  simp only [ends_bind, ends_relationship, ends_discard, ends_table, ends_get]
  refine ⟨fun rel _ => ⟨fun p _ => ⟨fun ch _ => ?_, fun _ => .refl s⟩, fun _ => .refl s⟩,
    fun _ => .refl s⟩
  split
  · exact .refl s
  · simp only [ends_bind, ends_refuseCycle]
    have hchild : ∀ r' new, some (r, some child) = some (r', new) → new = some child := by
      rintro _ _ ⟨⟩
      rfl
    have hbody := passes_within_secondaryChange child hchild (passes_attachSteps r parent child auto)
    exact ⟨fun _ => encloses_within_compound _ hbody s, fun _ => .refl s⟩

/-- Without mappings the identifying flag is all that changes. -/
theorem staysWithin_setIdentifyingCascade {r : RelationshipId} {rel : Relationship} {identifying : Bool}
    (hrel : s.relationships.get? r = some rel)
    (h : (rel.identifying ≠ identifying && s.isLive r && !rel.mappings.isEmpty) = false) :
    (setIdentifyingCascade r identifying).StaysWithin ts s := by
  unfold setIdentifyingCascade StaysWithin
  simp only [ends_bind, ends_relationship_of hrel, ends_change, ends_raise, ends_get]
  -- what follows is about the schema with the new flag
  set s₁ := (s.changeRelationship r fun rel => { rel with identifying }).raise
    (.propertyChanged (.relationship r) .identifying (.bool rel.identifying) (.bool identifying))
  have hmarked : Within ts s s₁ := .aside (by rfl) rfl rfl rfl
  split
  · rename_i hreached
    rw [Bool.and_eq_true] at hreached
    have hlive : s₁.isLive r = s.isLive r :=
      (sameShape_markIdentifying r rel.identifying identifying s).isLive r
    rw [hreached.1, ← hlive, hreached.2, Bool.and_self, Bool.true_and, Bool.not_eq_false'] at h
    have hget : s₁.relationships.get? r = some { rel with identifying } := by
      rw [(SameObjects.raise _ _).relationships, changeRelationship, Roster.get?_modify, if_pos rfl, hrel]
      rfl
    simp only [ends_bind, ends_relationship_of hget, List.isEmpty_iff.mp h]
    exact hmarked
  · exact hmarked

theorem encloses_setIdentifying (r : RelationshipId) (identifying : Bool) (s : Schema) :
    (setIdentifying r identifying).Encloses ts s := by
  unfold setIdentifying Encloses
  simp only [ends_bind, ends_relationship, ends_refuseCycle, ends_ask]
  refine ⟨fun rel hrel => ⟨fun _ => ?_, fun _ => .refl s⟩, fun _ => .refl s⟩
  exact encloses_compoundIf _ (passes_setIdentifyingCascade r identifying _)
    (staysWithin_setIdentifyingCascade hrel)

/-! ### Tables, switches and scopes -/

theorem staysWithin_addTable (tbl : Table) (s : Schema) : (addTable tbl).StaysWithin ts s := by
  refine (addTable_ends tbl s).atomic.staysWithin fun _ _ h => ?_
  rw [h, Schema.appendTable]
  exact .aside (by rfl) rfl rfl rfl

theorem encloses_removeTable (t : TableId) (s : Schema) : (removeTable t).Encloses ts s := by
  unfold removeTable Encloses
  simp only [ends_bind, ends_table]
  refine ⟨fun tbl _ => ?_, fun _ => .refl s⟩
  have hbody : ∀ s₁, (removeTableCascade t).Passes none s₁ := passes_removeTableCascade t
  exact encloses_compound _ (hbody _)

theorem staysWithin_createRelationship (rel : Relationship) (s : Schema) :
    (createRelationship rel).StaysWithin ts s := by
  refine (createRelationship_atomic s rel).staysWithin fun _ _ h => ?_
  obtain ⟨-, -, rfl⟩ := h
  exact .of_aside rfl (.of_same rfl rfl)

theorem staysWithin_enterSecondaryChange (t : TableId) (s : Schema) :
    (enterSecondaryChange t).StaysWithin ts s := by
  refine (enterSecondaryChange_atomic s t).staysWithin fun _ _ h => ?_
  rw [h, suspended]
  split
  · exact .refl s
  · exact .of_aside rfl (.of_same rfl rfl)

theorem encloses_exitSecondaryChange (t : TableId) (s : Schema) :
    (exitSecondaryChange t).Encloses ts s := by
  unfold exitSecondaryChange Encloses
  rw [ends_bind, ends_get]
  split
  · rw [ends_change]
    exact .within (.of_aside rfl (.forget t s))
  · rename_i tbl _
    simp only [ends_bind, ends_change]
    have hmode : Voices (fun e => e.isAside = true) s (s.setSecondaryChange t false) :=
      .of_same rfl rfl
    have hleft := hmode.trans (.release t _)
    split
    · rw [ends_bind, ends_get]
      split
      · have hbody : ∀ s₁, (reconcileExported t).Passes none s₁ := passes_reconcileExported t
        rw [ends_compound]
        exact Ends.mono (hbody _) (fun _ _ h => .compound hleft _ h rfl) fun _ _ h =>
          .compound hleft _ h rfl
      · exact .within (.of_aside rfl hleft)
    · exact .within (.of_aside rfl hleft)

theorem encloses_setSecondaryChangeMode (t : TableId) (on : Bool) (s : Schema) :
    (setSecondaryChangeMode t on).Encloses ts s := by
  unfold setSecondaryChangeMode Encloses
  split
  · rw [ends_discard]
    exact (staysWithin_enterSecondaryChange t s).encloses
  · simp only [ends_bind, ends_table]
    refine ⟨fun tbl _ => ?_, fun _ => .refl s⟩
    split
    · exact encloses_exitSecondaryChange t s
    · exact .refl s

theorem staysWithin_setMagicEnabled (t : TableId) (on : Bool) (s : Schema) :
    (setMagicEnabled t on).StaysWithin ts s := by
  refine (setMagicEnabled_atomic s t on).staysWithin fun _ _ h => ?_
  rw [h]
  exact .of_aside rfl (.of_same rfl rfl)

/-- Opening a scope other than a compound edit tells nothing. -/
theorem staysWithin_enter {scope : Scope} (hscope : ∀ description, scope ≠ .compound description)
    (s : Schema) : (enter scope).StaysWithin ts s := by
  unfold enter StaysWithin
  cases scope with
  | compound description => exact absurd rfl (hscope description)
  | secondaryChange t =>
      simp only [ends_bind, ends_pure]
      exact staysWithin_enterSecondaryChange t s
  | magicDisabled t =>
      simp only [ends_bind, ends_table, ends_change, ends_pure]
      exact ⟨fun tbl _ => .of_aside rfl (.of_same rfl rfl), fun _ => .refl s⟩

theorem encloses_leave {opened : OpenScope} (hopened : opened ≠ .compound) (s : Schema) :
    (leave opened).Encloses ts s := by
  unfold leave Encloses
  cases opened with
  | compound => exact absurd rfl hopened
  | secondaryChange t entered =>
      dsimp only
      split
      · exact encloses_exitSecondaryChange t s
      · exact .refl s
  | magicDisabled t previous => exact .within (.of_aside rfl (.of_same rfl rfl))

end Edit

namespace Op

open Edit Schema

variable {s : Schema}

/-- The tables that an operation is given: directly, or with one of their columns. -/
def given (s : Schema) : Op → List TableId
  | addTable _ => []
  | removeTable t | setTableName t _ | setTablePhysicalName t _ | setTableRemarks t _ => [t]
  | addColumn t _ | insertColumn t _ _ | normalizePrimaryKey t => [t]
  | removeColumn c | moveColumn c _ | setColumnName c _ | setColumnPhysicalName c _
  | setDefaultValue c _ | setColumnRemarks c _ | setDataType c _ | setPrecision c _ | setScale c _
  | setNullable c _ | setAutoIncrement c _ | setPrimaryKeySeq c _ => (s.owner? c).toList
  | createRelationship rel => rel.parent.toList ++ rel.child.toList
  | setParent _ t | setChild _ t => t.toList
  | addExportedKey t _ | addImportedKey t _ | removeExportedKey t _ | removeImportedKey t _ => [t]
  | addMapping _ pk fk => (s.owner? pk).toList ++ (s.owner? fk).toList
  | mapPrimaryKeyColumn _ pk | removeMapping _ pk => (s.owner? pk).toList
  | attachRelationship _ parent child _ => [parent, child]
  | removeRelationship _ | setIdentifying _ _ | setRelationshipName _ _
  | setRelationshipPhysicalName _ _ | setParentCardinality _ _ | setChildCardinality _ _
  | setUpdateRule _ _ | setDeleteRule _ _ | setDeferrability _ _ => []
  | setSecondaryChangeMode t _ | setMagicEnabled t _ => [t]

/-- Every operation encloses what it tells of columns of other tables in a compound edit. -/
theorem encloses_edit (op : Op) (hs : s.Sound) (ht : s.Tidy) : op.edit.Encloses (op.given s) s := by
  -- the table of a column is given along with the column
  have howner : ∀ c t, s.owner? c = some t → t ∈ (s.owner? c).toList := fun c t h => by simp [h]
  unfold edit Encloses
  cases op <;> rw [ends_map]
  case addTable tbl => exact (staysWithin_addTable tbl s).encloses
  case removeTable t => exact encloses_removeTable t s
  case setTableName | setTablePhysicalName | setTableRemarks =>
    exact (staysWithin_describeTable _ _ _ _ s).encloses
  case addColumn t col => exact encloses_addColumn (List.mem_singleton_self t) hs ht col
  case insertColumn t i col => exact encloses_insertColumn (List.mem_singleton_self t) hs ht i col
  case removeColumn c => exact encloses_removeColumn (howner c) hs ht
  case moveColumn c index => exact (staysWithin_moveColumn (howner c) hs ht index).encloses
  case setColumnName c name => exact encloses_setColumnName (howner c) hs ht name
  case setColumnPhysicalName c _ | setDefaultValue c _ | setColumnRemarks c _ | setAutoIncrement c _ =>
    exact (staysWithin_describeColumn (howner c) hs ht _ _ _).encloses
  case setDataType c _ | setPrecision c _ | setScale c _ | setNullable c _ =>
    exact encloses_setShared (howner c) hs ht _
  case setPrimaryKeySeq c rank => exact encloses_setPrimaryKeySeq (howner c) hs ht rank
  case normalizePrimaryKey t =>
    exact (staysWithin_normalizePrimaryKey (List.mem_singleton_self t) hs ht).encloses
  case createRelationship rel => exact (staysWithin_createRelationship rel s).encloses
  case setParent r t => exact (staysWithin_setParent r t s).encloses
  case setChild r t => exact (staysWithin_setChild r t s).encloses
  case addExportedKey t r => exact (staysWithin_addExportedKey t r s).encloses
  case addImportedKey t r => exact (staysWithin_addImportedKey t r s).encloses
  case removeExportedKey t r => exact encloses_removeExportedKey t r s
  case removeImportedKey t r => exact encloses_removeImportedKey t r s
  case removeRelationship r => exact encloses_removeRelationship r s
  case addMapping r pk fk =>
    exact encloses_addMapping (fun t h => List.mem_append_right _ (howner fk t h)) hs ht r
  case removeMapping r pk => exact (staysWithin_removeMapping r pk s).encloses
  case mapPrimaryKeyColumn r pk => exact encloses_mapPrimaryKeyColumn r pk s
  case attachRelationship r parent child auto => exact encloses_attachRelationship r parent child auto s
  case setIdentifying r identifying => exact encloses_setIdentifying r identifying s
  case setSecondaryChangeMode t on => exact encloses_setSecondaryChangeMode t on s
  case setMagicEnabled t on => exact (staysWithin_setMagicEnabled t on s).encloses
  all_goals exact (staysWithin_describeRelationship _ _ _ _ s).encloses

end Op

end KeyedSchema
