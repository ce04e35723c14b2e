import KeyedSchema.Proofs.Agreement
import KeyedSchema.Proofs.Cut
import KeyedSchema.Proofs.Lookups
import KeyedSchema.Schema.Columns
import KeyedSchema.Schema.Relationships
import KeyedSchema.Schema.Tables

/-!
# Bounds — cascades that use something up

Removals, renamings and changes of shared attributes stay within their bounds on every schema,
sound or not, since each nested step uses something up:

- a removal takes a column out, and no step of it puts one in (`Lessens`);
- a new name or attribute reaches a column that does not have it yet, and no step takes it away
  from one that has (`unsettled`);
- a round over stray mappings takes one of them out.

So the edits that consist of such steps are the same whatever is to happen beyond the bounds: on
the left of the equations below that is left open, on the right it is `Beyond.standard`.
-/

namespace KeyedSchema

namespace Schema

variable {s s' s'' : Schema} {c : ColumnId} {r : RelationshipId}

/-! ## Columns and mappings become fewer -/

/-- Whether there are at most as many columns, and mappings of each relationship, as before. -/
structure Lessens (s s' : Schema) : Prop where
  columns : s'.columns.size ≤ s.columns.size
  mappings : ∀ r, (s'.mappingsOf r).length ≤ (s.mappingsOf r).length

theorem Lessens.refl (s : Schema) : Lessens s s := ⟨Nat.le_refl _, fun _ => Nat.le_refl _⟩

theorem Lessens.trans (h : Lessens s s') (h' : Lessens s' s'') : Lessens s s'' :=
  ⟨Nat.le_trans h'.columns h.columns, fun r => Nat.le_trans (h'.mappings r) (h.mappings r)⟩

theorem Unmaps.lessens (h : Unmaps s s') : Lessens s s' :=
  ⟨Nat.le_of_eq (by rw [h.columns]), fun r => (h.mappingsOf r).length_le⟩

theorem Reranks.lessens (h : Reranks s s') : Lessens s s' := by
  have hsize : s'.columns.size = s.columns.size := by
    rw [Roster.size_eq_length_keys, Roster.size_eq_length_keys, h.sameShape.columnKeys]
  exact ⟨Nat.le_of_eq hsize, fun r => Nat.le_of_eq (h.mappingsOf r).length_eq⟩

theorem lessens_dropColumn (t : TableId) (i : Nat) (c : ColumnId) (s : Schema) :
    Lessens s (s.dropColumn t i c) := by
  have ho := dropColumn_objects t i c s
  constructor
  · rw [ho.columns]
    exact List.length_filter_le _ _
  · intro r
    have hm : (s.dropColumn t i c).mappingsOf r = s.mappingsOf r := by
      unfold mappingsOf
      rw [ho.relationships]
      rfl
    exact Nat.le_of_eq (congrArg List.length hm)

/-- Taking out a stored column leaves fewer columns. -/
theorem size_dropColumn_lt (t : TableId) (i : Nat) (hc : s.columns.contains c = true) :
    (s.dropColumn t i c).columns.size < s.columns.size := by
  rw [(dropColumn_objects t i c s).columns]
  exact Roster.size_erase_lt hc

/-! ## Columns that are still to be changed -/

/-- The number of columns that a change has not reached. -/
def unsettled (f : Column → Column) (s : Schema) : Nat :=
  s.columns.entries.countP fun e => f e.2 ≠ e.2

theorem unsettled_le_size (f : Column → Column) (s : Schema) : s.unsettled f ≤ s.columns.size :=
  List.countP_le_length

theorem unsettled_congr {f : Column → Column} (h : SameObjects s s') :
    s'.unsettled f = s.unsettled f := by
  unfold unsettled
  rw [h.columns]

/-- Making the change in one column leaves no more columns to reach. -/
theorem countP_change_le {κ : Type} [DecidableEq κ] {f : Column → Column}
    (hf : ∀ col, f (f col) = f col) (k : κ) (es : List (κ × Column)) :
    (Roster.change k f es).countP (fun e => f e.2 ≠ e.2) ≤ es.countP fun e => f e.2 ≠ e.2 := by
  induction es with
  | nil => exact Nat.le_refl _
  | cons e es ih =>
      simp only [Roster.change, List.countP_cons]
      refine Nat.add_le_add ih ?_
      split
      · simp [hf]
      · exact Nat.le_refl _

/-- If the column did not have it before, there is one column less to reach. -/
theorem countP_change_lt {κ : Type} [DecidableEq κ] {f : Column → Column}
    (hf : ∀ col, f (f col) = f col) {k : κ} {col : Column} (hne : f col ≠ col) :
    ∀ {es : List (κ × Column)}, Roster.find k es = some col →
      (Roster.change k f es).countP (fun e => f e.2 ≠ e.2) < es.countP fun e => f e.2 ≠ e.2
  | [], h => by simp [Roster.find] at h
  | (k', a) :: es, h => by
      simp only [Roster.find] at h
      simp only [Roster.change, List.countP_cons]
      split at h
      · -- the entry that is read is the one that changes
        rename_i hk
        obtain rfl := Option.some.inj h
        have hle := countP_change_le hf k es
        have hbefore : decide (f a ≠ a) = true := decide_eq_true hne
        have hafter : decide (f (f a) ≠ f a) = false := decide_eq_false (not_not.mpr (hf a))
        simp only [hk, if_true, hbefore, hafter, Bool.false_eq_true, if_false]
        omega
      · rename_i hk
        have hlt := countP_change_lt hf hne h
        simp only [hk, if_false]
        omega

theorem unsettled_changeColumn_le {f : Column → Column} (hf : ∀ col, f (f col) = f col)
    (c : ColumnId) (s : Schema) : (s.changeColumn c f).unsettled f ≤ s.unsettled f :=
  countP_change_le hf c s.columns.entries

theorem unsettled_changeColumn_lt {f : Column → Column} (hf : ∀ col, f (f col) = f col)
    {col : Column} (hc : s.columns.get? c = some col) (hne : f col ≠ col) :
    (s.changeColumn c f).unsettled f < s.unsettled f :=
  countP_change_lt hf hne hc

end Schema

namespace Edit

open Schema

variable {s : Schema} {c : ColumnId} {r : RelationshipId} {depth depth' : Nat}

/-! ## Removals -/

theorem removeIfOrphaned_lessens {remove : ColumnId → Edit Column}
    (hremove : ∀ c s, (remove c).Ends (fun _ s' => Lessens s s') (fun _ _ => True) s)
    (c : ColumnId) (s : Schema) :
    (removeIfOrphaned remove c).Ends (fun _ s' => Lessens s s') (fun _ _ => True) s := by
  unfold removeIfOrphaned
  simp only [ends_bind, ends_get]
  split
  · rw [ends_discard]
    exact hremove c s
  · exact Lessens.refl s

/-- No removal adds columns or mappings. -/
theorem removeColumnWithin_lessens (depth : Nat) : ∀ (c : ColumnId) (s : Schema),
    (removeColumnWithin depth c).Ends (fun _ s' => Lessens s s') (fun _ _ => True) s := by
  induction depth with
  | zero => exact fun _ _ => trivial
  | succ depth ih =>
      intro c s
      unfold removeColumnWithin
      simp only [ends_bind, ends_ownerOf, ends_table, ends_require, ends_column, ends_change, ends_ask]
      refine ⟨fun t _ => ⟨fun tbl _ => ⟨fun i _ => ⟨fun col _ => ?_, fun _ => trivial⟩,
        fun _ => trivial⟩, fun _ => trivial⟩, fun _ => trivial⟩
      have hcut := (lessens_dropColumn t i c s).trans (unmaps_unmapColumn c _).lessens
      -- every round over the orphans starts from a schema with less in it
      refine (Ends.forM (I := fun _ s₁ => Lessens s s₁) (fun f _ s₁ h₁ => ?_) hcut).imp
        fun _ s₂ h₂ => ?_
      · exact (removeIfOrphaned_lessens ih f s₁).imp fun _ _ h => h₁.trans h
      · split
        · simp only [ends_bind, ends_table]
          refine ⟨fun tbl _ => ?_, fun _ => trivial⟩
          split
          · rw [ends_bind]
            exact (normalizeKey_reranks t none s₂).mono (fun _ _ h => h₂.trans h.lessens)
              fun _ _ _ => trivial
          · exact h₂
        · exact h₂

theorem removeOrphan_lessens (c : ColumnId) (s : Schema) :
    (removeOrphan c).Ends (fun _ s' => Lessens s s') (fun _ _ => True) s := by
  refine removeIfOrphaned_lessens (fun c s => ?_) c s
  unfold removeColumnCascade
  simp only [ends_bind, ends_get]
  exact removeColumnWithin_lessens _ c s

variable [Beyond]

/-- Removals that may be nested deeper than there are columns stay within their bound. -/
theorem removeColumnWithin_agrees (depth : Nat) : ∀ (depth' : Nat) (c : ColumnId) (s : Schema),
    s.columns.size < depth → depth ≤ depth' →
    Agrees (removeColumnWithin depth' c) (@removeColumnWithin .standard depth c) s := by
  induction depth with
  | zero => exact fun _ _ _ hsize _ => absurd hsize (Nat.not_lt_zero _)
  | succ depth ih =>
      intro depth' c s hsize hle
      obtain ⟨depth', rfl⟩ := Nat.exists_eq_succ_of_ne_zero (Nat.ne_of_gt (Nat.lt_of_lt_of_le
        (Nat.succ_pos depth) hle))
      unfold removeColumnWithin
      simp only [agrees_bind, ends_ownerOf, ends_table, ends_require, ends_column, ends_change, ends_ask]
      refine ⟨fun t _ => ⟨fun tbl _ => ⟨fun i _ => ⟨fun col hcol => ?_, fun _ => trivial⟩,
        fun _ => trivial⟩, fun _ => trivial⟩, fun _ => trivial⟩
      -- one column less is there for the nested removals
      have hlt : ((s.dropColumn t i c).unmapColumn c).columns.size < depth := by
        have hdrop := size_dropColumn_lt (s := s) t i (Roster.contains_of_get? hcol)
        rw [(unmaps_unmapColumn c _).columns]
        omega
      refine Agrees.bind_left (Agrees.forM (P := fun s₁ => s₁.columns.size < depth)
        (fun f _ s₁ h₁ => ⟨?_, ?_⟩) hlt) _
      · unfold removeIfOrphaned
        rw [agrees_bind, ends_get]
        split
        · exact (ih depth' f s₁ h₁ (Nat.le_of_succ_le_succ hle)).discard
        · exact .refl _ _
      · exact (removeIfOrphaned_lessens (removeColumnWithin_lessens depth) f s₁).imp
          fun _ _ h => Nat.lt_of_le_of_lt h.columns h₁

theorem removeColumnCascade_eq :
    removeColumnCascade = @removeColumnCascade .standard := by
  funext c
  refine eq_of_agrees fun s => ?_
  unfold removeColumnCascade
  rw [agrees_bind, ends_get]
  exact removeColumnWithin_agrees _ _ c s (Nat.lt_succ_self _) (Nat.le_refl _)

theorem removeOrphan_eq : removeOrphan = @removeOrphan .standard := by
  funext c
  unfold removeOrphan
  rw [removeColumnCascade_eq]

theorem removeColumn_eq : removeColumn = @removeColumn .standard := by
  funext c
  unfold removeColumn
  rw [removeColumnCascade_eq]

theorem detachCascade_eq : detachCascade = @detachCascade .standard := by
  funext r
  unfold detachCascade
  rw [removeOrphan_eq]

theorem detach_eq : detach = @detach .standard := by
  funext r
  unfold detach
  rw [detachCascade_eq]

theorem removeExportedKey_eq : removeExportedKey = @removeExportedKey .standard := by
  funext t r
  unfold removeExportedKey
  rw [detach_eq]

theorem removeImportedKey_eq : removeImportedKey = @removeImportedKey .standard := by
  funext t r
  unfold removeImportedKey
  rw [detach_eq]

theorem removeRelationship_eq : removeRelationship = @removeRelationship .standard := by
  funext r
  unfold removeRelationship
  rw [detach_eq]

theorem removeTable_eq : removeTable = @removeTable .standard := by
  funext t
  unfold removeTable removeTableCascade dismissRelationship
  rw [detachCascade_eq]

/-! ## Columns that leave a key -/

theorem unmapDemoted_eq : unmapDemoted = @unmapDemoted .standard := by
  funext r pk
  unfold unmapDemoted
  rw [removeOrphan_eq]

/-- What follows a new rank depends on the bounds through the rule for promotion alone. -/
theorem afterRankChange_eq : afterRankChange = @afterRankChange .standard := by
  funext promote c old new
  unfold afterRankChange
  rw [unmapDemoted_eq]

theorem setRank_eq : setRank = @setRank .standard := by
  funext promote c rank
  unfold setRank
  rw [afterRankChange_eq]

/-! ## Stray mappings -/

/-- One round more than there are mappings is enough to drop all stray ones. -/
theorem dropStrayMappings_agrees (key : List ColumnId) (rounds : Nat) :
    ∀ (rounds' : Nat) (s : Schema), (s.mappingsOf r).length < rounds → rounds ≤ rounds' →
    Agrees (dropStrayMappings r key rounds') (@dropStrayMappings .standard r key rounds) s := by
  induction rounds with
  | zero => exact fun _ _ hlen _ => absurd hlen (Nat.not_lt_zero _)
  | succ rounds ih =>
      intro rounds' s hlen hle
      obtain ⟨rounds', rfl⟩ := Nat.exists_eq_succ_of_ne_zero (Nat.ne_of_gt (Nat.lt_of_lt_of_le
        (Nat.succ_pos rounds) hle))
      unfold dropStrayMappings
      rw [removeOrphan_eq, agrees_bind, ends_relationship]
      refine ⟨fun rel hrel => ?_, fun _ => trivial⟩
      split
      · rename_i i m hi _
        simp only [agrees_bind, ends_change]
        -- the orphan takes mappings along, and adds none
        refine (removeOrphan_lessens m.fk _).imp fun _ s₁ h₁ => ?_
        refine ih rounds' s₁ ?_ (Nat.le_of_succ_le_succ hle)
        have hi' : i < (s.mappingsOf r).length := by
          simpa [mappingsOf, hrel] using (List.findIdx?_eq_some_iff_findIdx_eq.mp hi).1
        have hle₁ := h₁.mappings r
        rw [mappingsOf_removeMappingAt, if_pos rfl, List.length_eraseIdx_of_lt hi'] at hle₁
        omega
      · exact .refl _ _

end Edit

/-! ## Names and shared attributes -/

theorem SharedAttribute.write_write (a : SharedAttribute) (col : Column) :
    a.write (a.write col) = a.write col := by
  cases a <;> rfl

namespace Edit

open Schema

variable {s : Schema} {c : ColumnId}

/-- No renaming takes the new name away from a column. -/
theorem renameWithin_settles (name : String) (depth : Nat) : ∀ (c : ColumnId) (s : Schema),
    (renameWithin name depth c).Ends
      (fun _ s' => s'.unsettled (fun col => { col with name }) ≤
        s.unsettled fun col => { col with name }) (fun _ _ => True) s := by
  induction depth with
  | zero => exact fun _ s => Nat.le_refl _
  | succ depth ih =>
      intro c s
      unfold renameWithin
      simp only [ends_bind, ends_column, ends_change, ends_raise]
      refine ⟨fun col _ => ?_, fun _ => trivial⟩
      have hstep : ∀ e : Event, ((s.changeColumn c fun col => { col with name }).raise e).unsettled
          (fun col => { col with name }) ≤ s.unsettled fun col => { col with name } := by
        intro e
        rw [unsettled_congr (SameObjects.raise e _)]
        exact unsettled_changeColumn_le (f := fun col : Column => { col with name }) (fun _ => rfl) c s
      split
      · rw [ends_bind]
        refine followers_ends ?_ fun _ => trivial
        refine Ends.forM (I := fun _ s₁ => s₁.unsettled (fun col => { col with name }) ≤
          s.unsettled fun col => { col with name }) (fun fk _ s₁ h₁ => ?_) (hstep _)
        simp only [ends_bind, ends_column]
        refine ⟨fun col' _ => ?_, fun _ => trivial⟩
        split
        · exact (ih fk s₁).imp fun _ _ h => Nat.le_trans h h₁
        · exact h₁
      · exact hstep _

/-- No change of a shared attribute takes the value away from a column. -/
theorem setSharedWithin_settles (a : SharedAttribute) (depth : Nat) :
    ∀ (c : ColumnId) (s : Schema), (setSharedWithin a depth c).Ends
      (fun _ s' => s'.unsettled a.write ≤ s.unsettled a.write) (fun _ _ => True) s := by
  induction depth with
  | zero => exact fun _ s => Nat.le_refl _
  | succ depth ih =>
      intro c s
      unfold setSharedWithin
      simp only [ends_bind, ends_column, ends_change, ends_raise]
      refine ⟨fun col _ => ?_, fun _ => trivial⟩
      have hstep : ∀ e : Event,
          ((s.changeColumn c a.write).raise e).unsettled a.write ≤ s.unsettled a.write := by
        intro e
        rw [unsettled_congr (SameObjects.raise e _)]
        exact unsettled_changeColumn_le a.write_write c s
      split
      · rw [ends_bind]
        refine followers_ends ?_ fun _ => trivial
        refine Ends.forM (I := fun _ s₁ => s₁.unsettled a.write ≤ s.unsettled a.write)
          (fun fk _ s₁ h₁ => ?_) (hstep _)
        exact (ih fk s₁).imp fun _ _ h => Nat.le_trans h h₁
      · exact hstep _

variable [Beyond]

/-- A renaming that may be nested deeper than there are columns without the new name stays within
its bound, also where columns follow each other in a circle. -/
theorem renameWithin_agrees (name : String) (depth : Nat) :
    ∀ (depth' : Nat) (c : ColumnId) (s : Schema),
    s.unsettled (fun col => { col with name }) < depth → depth ≤ depth' →
    Agrees (renameWithin name depth' c) (@renameWithin .standard name depth c) s := by
  induction depth with
  | zero => exact fun _ _ _ hleft _ => absurd hleft (Nat.not_lt_zero _)
  | succ depth ih =>
      intro depth' c s hleft hle
      obtain ⟨depth', rfl⟩ := Nat.exists_eq_succ_of_ne_zero (Nat.ne_of_gt (Nat.lt_of_lt_of_le
        (Nat.succ_pos depth) hle))
      unfold renameWithin
      simp only [agrees_bind, ends_column, ends_change, ends_raise]
      refine ⟨fun col hcol => ?_, fun _ => trivial⟩
      split
      · rename_i hne
        -- the column had another name, so one less is left without the new one
        have hlt : ∀ e : Event, ((s.changeColumn c fun col => { col with name }).raise e).unsettled
            (fun col => { col with name }) < depth := by
          intro e
          have hfewer := unsettled_changeColumn_lt (f := fun col : Column => { col with name })
            (fun _ => rfl) hcol fun h => hne (congrArg Column.name h).symm
          rw [unsettled_congr (SameObjects.raise e _)]
          omega
        rw [agrees_bind]
        refine followers_ends ?_ fun _ => trivial
        refine Agrees.forM (P := fun s₁ => s₁.unsettled (fun col => { col with name }) < depth)
          (fun fk _ s₁ h₁ => ?_) (hlt _)
        simp only [agrees_bind, ends_bind, ends_column]
        refine ⟨⟨fun col' _ => ?_, fun _ => trivial⟩, fun col' _ => ?_, fun _ => trivial⟩
        · split
          · exact ih depth' fk s₁ h₁ (Nat.le_of_succ_le_succ hle)
          · exact .refl _ _
        · split
          · exact (renameWithin_settles name depth fk s₁).imp fun _ _ h => Nat.lt_of_le_of_lt h h₁
          · exact h₁
      · exact .refl _ _

/-- A change of a shared attribute that may be nested deeper than there are columns with another
value stays within its bound. -/
theorem setSharedWithin_agrees (a : SharedAttribute) (depth : Nat) :
    ∀ (depth' : Nat) (c : ColumnId) (s : Schema), s.unsettled a.write < depth → depth ≤ depth' →
    Agrees (setSharedWithin a depth' c) (@setSharedWithin .standard a depth c) s := by
  induction depth with
  | zero => exact fun _ _ _ hleft _ => absurd hleft (Nat.not_lt_zero _)
  | succ depth ih =>
      intro depth' c s hleft hle
      obtain ⟨depth', rfl⟩ := Nat.exists_eq_succ_of_ne_zero (Nat.ne_of_gt (Nat.lt_of_lt_of_le
        (Nat.succ_pos depth) hle))
      unfold setSharedWithin
      simp only [agrees_bind, ends_column, ends_change, ends_raise]
      refine ⟨fun col hcol => ?_, fun _ => trivial⟩
      split
      · rename_i hne
        have hlt : ∀ e : Event, ((s.changeColumn c a.write).raise e).unsettled a.write < depth := by
          intro e
          have hfewer := unsettled_changeColumn_lt a.write_write hcol hne
          rw [unsettled_congr (SameObjects.raise e _)]
          omega
        rw [agrees_bind]
        refine followers_ends ?_ fun _ => trivial
        refine Agrees.forM (P := fun s₁ => s₁.unsettled a.write < depth)
          (fun fk _ s₁ h₁ => ⟨ih depth' fk s₁ h₁ (Nat.le_of_succ_le_succ hle), ?_⟩) (hlt _)
        exact (setSharedWithin_settles a depth fk s₁).imp fun _ _ h => Nat.lt_of_le_of_lt h h₁
      · exact .refl _ _

theorem setColumnName_eq : setColumnName = @setColumnName .standard := by
  funext c name
  refine eq_of_agrees fun s => ?_
  unfold setColumnName
  simp only [agrees_bind, ends_discard, ends_column]
  refine ⟨fun col _ => followers_ends (Agrees.compoundIf _ _ fun s₁ h₁ => ?_) fun _ => trivial,
    fun _ => trivial⟩
  refine renameWithin_agrees name _ _ c s₁ ?_ (Nat.le_refl _)
  rw [← h₁.columns]
  exact Nat.lt_succ_of_le (unsettled_le_size _ s₁)

theorem setShared_eq : setShared = @setShared .standard := by
  funext a c
  refine eq_of_agrees fun s => ?_
  unfold setShared
  simp only [agrees_bind, ends_discard, ends_column]
  refine ⟨fun col _ => followers_ends (Agrees.compoundIf _ _ fun s₁ h₁ => ?_) fun _ => trivial,
    fun _ => trivial⟩
  refine setSharedWithin_agrees a _ _ c s₁ ?_ (Nat.le_refl _)
  rw [← h₁.columns]
  exact Nat.lt_succ_of_le (unsettled_le_size _ s₁)

end Edit

end KeyedSchema
