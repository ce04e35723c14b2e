import KeyedSchema.Proofs.Following

/-!
# Renaming — a new name follows the old one

A new name is passed from a column to those of its followers that had the old name, and from these
to theirs. The columns that are renamed are thus the ones that walks from column to follower, all
along columns of the old name, lead to. Each is renamed once and told of once, also where such walks
meet again or go round in a circle: a column that is renamed does not have the old name any more.
-/

namespace KeyedSchema

namespace Schema

open Relation

variable {s s' s₁ : Schema} {c x y : ColumnId} {old name : String} {ys : List ColumnId}

/-- The event that tells of a new name. -/
def renamed (old name : String) (x : ColumnId) : Event :=
  .propertyChanged (.column x) .name (.text old) (.text name)

/-- What a renaming of the column `c` comes to: `ys` are the renamed columns. -/
structure Renames (c : ColumnId) (old name : String) (ys : List ColumnId) (s s' : Schema) :
    Prop where
  nodup : ys.Nodup
  /-- Columns are renamed that walks along columns of the old name lead to. -/
  walks : ∀ y, y ∈ ys ↔ ReflTransGen (fun x y => s.PassesTo x y ∧ s.IsNamed old y) c y
  named : ∀ y ∈ ys, s.IsNamed old y
  /-- They have the new name, and nothing else is changed. -/
  rewrites : s.Rewrites (fun col => { col with name }) ys s'
  /-- One event tells of each of them; besides there are at most the signals of a compound edit. -/
  told : ∃ es, s'.raised = s.raised ++ es ∧
    es.filter (fun e => !e.isCompoundSignal) = ys.map (renamed old name)

/-- The signals of a compound edit do not matter to what a renaming comes to. -/
theorem Renames.amid_signals {e e' : Event} (h : Renames c old name ys (s.signal e) s₁)
    (he : e.isCompoundSignal = true) (he' : e'.isCompoundSignal = true) :
    Renames c old name ys s (s₁.signal e') where
  nodup := h.nodup
  walks := h.walks
  named := h.named
  rewrites := h.rewrites.amid_signals e'
  told := by
    obtain ⟨es, hraised, htold⟩ := h.told
    have hall : (s₁.signal e').raised = s.raised ++ (e :: es ++ [e']) := calc
      (s₁.signal e').raised = s₁.raised ++ [e'] := rfl
      _ = (s.signal e).raised ++ es ++ [e'] := by rw [hraised]
      _ = s.raised ++ (e :: es ++ [e']) := by simp [Schema.signal]
    exact ⟨_, hall, by simp [he, he', htold]⟩

/-- A renaming amid its course: the columns `ys` are renamed and told of. -/
structure Renaming (c : ColumnId) (old name : String) (s : Schema) (ys : List ColumnId)
    (s₁ : Schema) : Prop extends
    HandsOn (fun col => { col with name }) (fun col => col.name == old) c s ys s₁ where
  raised : s₁.raised = s.raised ++ ys.map (renamed old name)

theorem settling_rename (h : name ≠ old) :
    Settling (fun col => { col with name }) (fun col => col.name == old) where
  table _ := rfl
  rank _ := rfl
  again _ := rfl
  settled _ := beq_eq_false_iff_ne.mpr h

/-- A renaming comes to one more column of the old name. -/
theorem Renaming.visit (h : Renaming c old name s ys s₁) (hne : name ≠ old)
    (hdue : s₁.isDue (fun col => col.name == old) x = true)
    (hwalk : ReflTransGen (s.PassesOn fun col => col.name == old) c x) :
    Renaming c old name s (ys ++ [x])
      ((s₁.changeColumn x fun col => { col with name }).raise (renamed old name x)) where
  toHandsOn := h.toHandsOn.visit (settling_rename hne) hdue hwalk _
  raised := by
    rw [raised_raise, List.map_append, ← List.append_assoc, ← h.raised]
    rfl

theorem isDue_name_iff : s.isDue (fun col => col.name == old) x = true ↔ s.IsNamed old x := by
  simp [isDue_iff, IsNamed]

/-- A renaming that has explored all there is has come to what it should. -/
theorem Renaming.renames (h : Renaming c old name s ys s₁) (hs : s.Sound) (hc : s.IsNamed old c)
    (hexplored : Explored (s.dueFollowers fun col => col.name == old) [c] [] ys) :
    Renames c old name ys s s₁ where
  nodup := h.nodup
  walks y := by
    have hlink : (s.PassesOn fun col => col.name == old) =
        fun x y => s.PassesTo x y ∧ s.IsNamed old y := by
      funext x y
      rw [PassesOn, isDue_name_iff]
    rw [← hlink]
    exact h.mem_iff hs hexplored
  named y hy := by
    rcases (h.reached y hy).cases_tail with rfl | ⟨x, -, hstep⟩
    · exact hc
    · exact isDue_name_iff.mp hstep.2
  rewrites := h.rewrites
  told := by
    refine ⟨_, h.raised, List.filter_eq_self.mpr fun e he => ?_⟩
    obtain ⟨x, -, rfl⟩ := List.mem_map.mp he
    rfl

end Schema

namespace Edit

open Schema Relation

variable {s : Schema} {c : ColumnId} {old name : String}

/-- Renaming a column of another name comes down to renaming its followers of that name. -/
theorem ends_renameWithin {depth : Nat} {x : ColumnId} {col : Column} {Q : Unit → Schema → Prop}
    {E : EditError → Schema → Prop} (hcol : s.columns.get? x = some col) (hne : name ≠ col.name)
    (hfollowers : (followers x).Ends (fun fks s' => (fks.forM fun fk => do
        if (← column fk).name = col.name then renameWithin name depth fk).Ends Q E s') E
      ((s.changeColumn x fun col => { col with name }).raise (renamed col.name name x))) :
    (renameWithin name (depth + 1) x).Ends Q E s := by
  unfold renameWithin
  simp only [ends_bind, ends_column_of hcol, ends_change, ends_raise, ne_eq, hne.symm,
    not_false_eq_true, if_true]
  exact hfollowers

/-- A renaming that comes to a column of the old name explores all that can be reached from it by
further columns of the old name. -/
theorem renameWithin_explores (hs : s.Sound) (hne : name ≠ old) (depth : Nat) :
    ∀ {x : ColumnId} {ys : List ColumnId} {s₁ : Schema}, Renaming c old name s ys s₁ →
      s₁.IsNamed old x → ReflTransGen (s.PassesOn fun col => col.name == old) c x →
      (s₁.unsettled fun col => { col with name }) < depth →
      (renameWithin name depth x).Ends
        (fun _ s₂ => ∃ zs, Explored (s.dueFollowers fun col => col.name == old) [x] ys zs ∧
          Renaming c old name s zs s₂) (fun _ _ => False) s₁ := by
  have hf := settling_rename hne
  -- the depth exceeds the number of columns that do not have the new name yet
  induction depth with
  | zero => exact fun _ _ _ hless => absurd hless (Nat.not_lt_zero _)
  | succ depth ih =>
      intro x ys s₁ h hx hwalk hless
      have hdue := isDue_name_iff.mpr hx
      obtain ⟨col, hcol, rfl⟩ := hx
      have hvisit := h.visit hne hdue hwalk
      have hstored := (h.rewrites.contains x).symm.trans (Roster.contains_of_get? hcol)
      refine ends_renameWithin hcol hne ?_
      rw [hvisit.rewrites.ends_followers hf hs hstored]
      have hstart : ((s₁.changeColumn x fun col => { col with name }).raise
          (renamed col.name name x)).unsettled (fun col => { col with name }) < depth :=
        Nat.lt_of_lt_of_le (unsettled_visit hf hdue _) (Nat.le_of_lt_succ hless)
      refine (ends_followers_explored hs hf (J := fun ys s₂ => Renaming c col.name name s ys s₂ ∧
        (s₂.unsettled fun col => { col with name }) < depth) (fun _ _ h => h.1.toHandsOn)
        ?due ?idle ⟨hvisit, hstart⟩).imp fun _ _ ⟨zs, hexplored, h₂⟩ => ⟨zs, hexplored, h₂.1⟩
      case due =>
        rintro fk ys s₂ ⟨h₂, hless⟩ hdue hstep
        have hnamed := isDue_name_iff.mp hdue
        obtain ⟨col', hcol', hname⟩ := isDue_name_iff.mp hdue
        simp only [ends_bind, ends_column_of hcol', hname, if_true]
        refine ((ih h₂ hnamed (hwalk.tail hstep) hless).and
          (renameWithin_settles name depth fk s₂)).mono ?_ fun _ _ h => h.1
        rintro _ s₃ ⟨⟨zs, hexplored, h₃⟩, hle⟩
        exact ⟨zs, hexplored, h₃, Nat.lt_of_le_of_lt hle hless⟩
      case idle =>
        intro fk ys s₂ col' h₂ hcol' hcold
        simpa only [ends_bind, ends_column_of hcol', beq_eq_false_iff_ne.mp hcold, if_false,
          ends_pure] using h₂

theorem setColumnName_renames (hs : s.Sound) (hc : s.IsNamed old c) (hne : name ≠ old) :
    (setColumnName c name).Ends (fun _ s' => ∃ ys, Renames c old name ys s s')
      (fun _ _ => False) s := by
  -- with the signal of a compound edit in front, or without
  have hrun : ∀ s : Schema, s.Sound → s.IsNamed old c →
      (renameWithin name (s.columns.size + 1) c).Ends
        (fun _ s' => ∃ ys, Renames c old name ys s s') (fun _ _ => False) s := by
    intro s hs hc
    have hstart : Renaming c old name s [] s := ⟨.start _ _ c s, by simp⟩
    refine (renameWithin_explores hs hne _ hstart hc .refl
      (Nat.lt_succ_of_le (unsettled_le_size _ s))).imp ?_
    rintro _ s' ⟨ys, hexplored, h⟩
    exact ⟨ys, h.renames hs hc hexplored⟩
  have ⟨col, hcol, _⟩ := hc
  unfold setColumnName
  simp only [ends_bind, ends_discard, ends_column_of hcol,
    ends_followers_of hs (Roster.contains_of_get? hcol), ends_get]
  refine ends_compoundIf _ (hrun s hs hc) ?_
  refine (hrun (s.signal _) (hs.signal _) hc).imp ?_
  rintro _ s' ⟨ys, h⟩
  exact ⟨ys, h.amid_signals rfl rfl⟩

end Edit

/-- In a schema that can be reached, a stored column can always be given another name. Exactly those
columns are renamed that walks from it lead to, from column to follower and along columns that had
the old name; one event tells of each of them, and nothing else is changed. -/
theorem Schema.Reachable.rename_follows {s : Schema} (h : s.Reachable) {c : ColumnId} {col : Column}
    (hcol : s.columns.get? c = some col) {name : String} (hne : name ≠ col.name) :
    ∃ s' ys, (Op.setColumnName c name).perform s = (.ok .done, s') ∧
      s.Renames c col.name name ys s' := by
  have hends : (Op.setColumnName c name).edit.Ends
      (fun reply s' => reply = .done ∧ ∃ ys, Schema.Renames c col.name name ys s s')
      (fun _ _ => False) s := by
    apply (Edit.ends_map _ _).mpr
    exact (Edit.setColumnName_renames h.sound ⟨col, hcol, rfl⟩ hne).imp fun _ _ h => ⟨rfl, h⟩
  obtain ⟨_, s', hok, rfl, ys, hrenames⟩ := hends.exists_ok
  exact ⟨s', ys, hok, hrenames⟩

/-- Two tables whose columns follow each other in a circle, and a third one with a column that
followed them too, until it was given a name of its own. -/
def renamedMoves : List Move :=
  [.edit (.addTable { name := "a" }),
    .edit (.addTable { name := "b" }),
    .edit (.addTable { name := "c" }),
    .edit (.addColumn ⟨1⟩ { name := "id", rank := some 0 }),
    .edit (.createRelationship { name := "ab" }),
    .edit (.attachRelationship ⟨1⟩ ⟨1⟩ ⟨2⟩ true),
    .edit (.setPrimaryKeySeq ⟨2⟩ (some 0)),
    .edit (.createRelationship { name := "ba" }),
    .edit (.attachRelationship ⟨2⟩ ⟨2⟩ ⟨1⟩ true),
    .edit (.createRelationship { name := "bc" }),
    .edit (.attachRelationship ⟨3⟩ ⟨2⟩ ⟨3⟩ true),
    .edit (.setColumnName ⟨3⟩ "ref")]

/-- A new name goes once around the circle; the column with a name of its own keeps it. -/
theorem Schema.rename_follows_circling : ∃ (s s' : Schema) (ys : List ColumnId), s.Reachable ∧
    s.PassesTo ⟨1⟩ ⟨2⟩ ∧ s.PassesTo ⟨2⟩ ⟨1⟩ ∧ s.PassesTo ⟨2⟩ ⟨3⟩ ∧
    (Op.setColumnName ⟨1⟩ "key").perform s = (.ok .done, s') ∧
    s.Renames ⟨1⟩ "id" "key" ys s' ∧ ⟨2⟩ ∈ ys ∧ ⟨3⟩ ∉ ys := by
  have hreach : Schema.Reachable ((Moment.start {}).run renamedMoves).schema :=
    ⟨{}, renamedMoves, rfl⟩
  have hcol : ((Moment.start {}).run renamedMoves).schema.columns.get? ⟨1⟩ =
      some { name := "id", rank := some 0, table := some ⟨1⟩ } := by decide +kernel
  obtain ⟨s', ys, hok, h⟩ := hreach.rename_follows hcol (by decide : "key" ≠ "id")
  have hpasses : ∀ x y : ColumnId, y ∈ ((Moment.start {}).run renamedMoves).schema.followers x →
      ((Moment.start {}).run renamedMoves).schema.PassesTo x y := fun x y =>
    hreach.sound.mem_followers.mp
  have hnamed : ((Moment.start {}).run renamedMoves).schema.IsNamed "id" ⟨2⟩ :=
    isDue_name_iff.mp (by decide +kernel)
  have hother : ¬ ((Moment.start {}).run renamedMoves).schema.IsNamed "id" ⟨3⟩ :=
    isDue_name_iff.not.mp (by decide +kernel)
  refine ⟨_, s', ys, hreach, hpasses _ _ (by decide +kernel), hpasses _ _ (by decide +kernel),
    hpasses _ _ (by decide +kernel), hok, h, ?_, fun hin => hother (h.named _ hin)⟩
  exact (h.walks _).mpr (.single ⟨hpasses _ _ (by decide +kernel), hnamed⟩)

end KeyedSchema
