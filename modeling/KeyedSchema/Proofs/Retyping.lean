import KeyedSchema.Proofs.Following

/-!
# Retyping — attributes that foreign-key columns take over

A new type, precision, scale or nullability is passed from a column to all of its followers, and from
those that did not have it yet to theirs. So it comes to the columns that walks from column to
follower lead to, if every column that is left on the way had another value. A column that had the
value already takes nothing over: what follows only from it keeps what it has.
-/

namespace KeyedSchema

namespace SharedAttribute

/-- The operation that gives a column the attribute's value. -/
def setter (a : SharedAttribute) (c : ColumnId) : Op :=
  match a with
  | type value => .setDataType c value
  | precision value => .setPrecision c value
  | scale value => .setScale c value
  | nullable value => .setNullable c value

theorem edit_setter (a : SharedAttribute) (c : ColumnId) :
    (a.setter c).edit = (fun _ => .done) <$> Edit.setShared a c := by
  cases a <;> rfl

/-- Whether a column has another value than the attribute's. -/
def differs (a : SharedAttribute) (col : Column) : Bool := a.write col ≠ col

end SharedAttribute

namespace Schema

open Relation

variable {s s' s₁ : Schema} {c x y : ColumnId} {a : SharedAttribute} {ys : List ColumnId}

/-- Whether a stored column has another value than the attribute's. -/
def Lacks (a : SharedAttribute) (s : Schema) (x : ColumnId) : Prop :=
  ∃ col, s.columns.get? x = some col ∧ a.write col ≠ col

theorem isDue_differs_iff : s.isDue a.differs x = true ↔ s.Lacks a x := by
  simp [isDue_iff, Lacks, SharedAttribute.differs]

theorem settling_write (a : SharedAttribute) : Settling a.write a.differs where
  table _ := by cases a <;> rfl
  rank _ := by cases a <;> rfl
  again := a.write_write
  settled col := by simp [SharedAttribute.differs, a.write_write]

/-- The columns that an attribute of the column `c` is passed to, on walks that no column interrupts
by having the value already. -/
def Passed (a : SharedAttribute) (s : Schema) (c y : ColumnId) : Prop :=
  ReflTransGen (fun x y => s.Lacks a x ∧ s.PassesTo x y) c y

/-- What a change of an attribute of the column `c` comes to. -/
structure Retypes (a : SharedAttribute) (c : ColumnId) (s s' : Schema) : Prop where
  passed : ∀ y, s.Passed a c y → ∃ col, s.columns.get? y = some col ∧
    s'.columns.get? y = some (a.write col)
  others : ∀ y, ¬ s.Passed a c y → s'.columns.get? y = s.columns.get? y
  columnKeys : s'.columns.keys = s.columns.keys
  objects : SameObjects { s with columns := s'.columns } s'

/-- A walk to columns that have another value also leaves none but such columns. -/
theorem passed_of_walk (hc : s.Lacks a c) (hwalk : ReflTransGen (s.PassesOn a.differs) c y) :
    s.Passed a c y ∧ s.Lacks a y := by
  induction hwalk with
  | refl => exact ⟨.refl, hc⟩
  | tail _ hstep ih => exact ⟨ih.1.tail ⟨ih.2, hstep.1⟩, isDue_differs_iff.mp hstep.2⟩

/-- What an attribute is passed to has the value already, or a walk to columns that have another one
leads to it. -/
theorem Passed.walk_or_holds (hs : s.Sound) (h : s.Passed a c y) :
    ReflTransGen (s.PassesOn a.differs) c y ∨
      ∃ col, s.columns.get? y = some col ∧ a.write col = col := by
  induction h with
  | refl => exact .inl .refl
  | @tail x y _ hstep ih =>
      obtain ⟨⟨colx, hx, hlacks⟩, hpasses⟩ := hstep
      have hwalk := ih.resolve_right fun ⟨col, hcol, hholds⟩ => by
        obtain rfl := Option.some.inj (hx.symm.trans hcol)
        exact hlacks hholds
      obtain ⟨col, hcol⟩ := (Roster.contains_iff _ _).mp (hs.stored_of_passesTo hpasses)
      by_cases hholds : a.write col = col
      · exact .inr ⟨col, hcol, hholds⟩
      · exact .inl (hwalk.tail ⟨hpasses, isDue_differs_iff.mpr ⟨col, hcol, hholds⟩⟩)

/-- Changing the columns that walks to columns with another value lead to changes what it should. -/
theorem Rewrites.retypes (h : Rewrites a.write ys s s') (hs : s.Sound) (hc : s.Lacks a c)
    (hys : ∀ y, y ∈ ys ↔ ReflTransGen (s.PassesOn a.differs) c y) : Retypes a c s s' where
  passed y hy := by
    rcases hy.walk_or_holds hs with hwalk | ⟨col, hcol, hholds⟩
    · obtain ⟨-, col, hcol, -⟩ := passed_of_walk hc hwalk
      refine ⟨col, hcol, ?_⟩
      rw [h.get?, if_pos ((hys y).mpr hwalk), hcol]
      rfl
    · refine ⟨col, hcol, ?_⟩
      rw [h.get?, hcol, Option.map_some, hholds, ite_self]
  others y hy := by
    rw [h.get?, if_neg fun hin => hy (passed_of_walk hc ((hys y).mp hin)).1]
  columnKeys := h.columnKeys
  objects := h.objects

end Schema

namespace Edit

open Schema Relation

variable {s s₁ : Schema} {c x : ColumnId} {a : SharedAttribute} {col : Column}
  {Q : Unit → Schema → Prop} {E : EditError → Schema → Prop}

/-- Changing an attribute of a column that has another value comes down to its followers. -/
theorem ends_setSharedWithin {depth : Nat} (hcol : s.columns.get? x = some col)
    (hlacks : a.write col ≠ col)
    (hfollowers : ∀ e, (followers x).Ends
      (fun fks s' => (fks.forM (setSharedWithin a depth)).Ends Q E s') E
      ((s.changeColumn x a.write).raise e)) :
    (setSharedWithin a (depth + 1) x).Ends Q E s := by
  unfold setSharedWithin
  simp only [ends_bind, ends_column_of hcol, ends_change, ends_raise, ne_eq, hlacks,
    not_false_eq_true, if_true]
  exact hfollowers _

/-- A column that has the attribute's value already is told of, and that is all. -/
theorem ends_setSharedWithin_idle (depth : Nat) (hcol : s.columns.get? x = some col)
    (hholds : a.write col = col) (hplain : Q () s)
    (htold : ∀ e, Q () ((s.changeColumn x a.write).raise e)) :
    (setSharedWithin a depth x).Ends Q E s := by
  cases depth with
  | zero => exact hplain
  | succ depth =>
      unfold setSharedWithin
      simp only [ends_bind, ends_column_of hcol, ends_change, ends_raise, ne_eq, hholds,
        not_true_eq_false, if_false, ends_pure]
      exact htold _

/-- A change that comes to a column with another value explores all that can be reached from it by
further such columns. -/
theorem setSharedWithin_explores (hs : s.Sound) (a : SharedAttribute) (depth : Nat) :
    ∀ {x : ColumnId} {ys : List ColumnId} {s₁ : Schema},
      HandsOn a.write a.differs c s ys s₁ → s₁.Lacks a x →
      ReflTransGen (s.PassesOn a.differs) c x → s₁.unsettled a.write < depth →
      (setSharedWithin a depth x).Ends
        (fun _ s₂ => ∃ zs, Explored (s.dueFollowers a.differs) [x] ys zs ∧
          HandsOn a.write a.differs c s zs s₂) (fun _ _ => False) s₁ := by
  have hf := settling_write a
  -- the depth exceeds the number of columns that do not have the value yet
  induction depth with
  | zero => exact fun _ _ _ hless => absurd hless (Nat.not_lt_zero _)
  | succ depth ih =>
      intro x ys s₁ h hx hwalk hless
      have hdue := isDue_differs_iff.mpr hx
      obtain ⟨col, hcol, hlacks⟩ := hx
      have hstored := (h.rewrites.contains x).symm.trans (Roster.contains_of_get? hcol)
      refine ends_setSharedWithin hcol hlacks fun e => ?_
      have hvisit := h.visit hf hdue hwalk e
      have hstart : ((s₁.changeColumn x a.write).raise e).unsettled a.write < depth :=
        Nat.lt_of_lt_of_le (unsettled_visit hf hdue e) (Nat.le_of_lt_succ hless)
      rw [hvisit.rewrites.ends_followers hf hs hstored]
      refine (ends_followers_explored hs hf (J := fun ys s₂ =>
        HandsOn a.write a.differs c s ys s₂ ∧ s₂.unsettled a.write < depth) (fun _ _ h => h.1)
        ?due ?idle ⟨hvisit, hstart⟩).imp fun _ _ ⟨zs, hexplored, h₂⟩ => ⟨zs, hexplored, h₂.1⟩
      case due =>
        rintro fk ys s₂ ⟨h₂, hless⟩ hdue hstep
        refine ((ih h₂ (isDue_differs_iff.mp hdue) (hwalk.tail hstep) hless).and
          (setSharedWithin_settles a depth fk s₂)).mono ?_ fun _ _ h => h.1
        rintro _ s₃ ⟨⟨zs, hexplored, h₃⟩, hle⟩
        exact ⟨zs, hexplored, h₃, Nat.lt_of_le_of_lt hle hless⟩
      case idle =>
        rintro fk ys s₂ col' ⟨h₂, hless⟩ hcol' hcold
        have hholds : a.write col' = col' := by simpa [SharedAttribute.differs] using hcold
        refine ends_setSharedWithin_idle depth hcol' hholds ⟨h₂, hless⟩ fun e => ⟨?_, ?_⟩
        · exact h₂.idle hcol' hholds e
        · rw [unsettled_congr (SameObjects.raise e _)]
          exact Nat.lt_of_le_of_lt (unsettled_changeColumn_le a.write_write fk s₂) hless

theorem setShared_retypes (hs : s.Sound) (hc : s.Lacks a c) :
    (setShared a c).Ends (fun _ s' => Retypes a c s s') (fun _ _ => False) s := by
  -- with the signal of a compound edit in front, or without
  have hrun : ∀ s : Schema, s.Sound → s.Lacks a c →
      (setSharedWithin a (s.columns.size + 1) c).Ends
        (fun _ s' => ∃ ys, Rewrites a.write ys s s' ∧
          ∀ y, y ∈ ys ↔ ReflTransGen (s.PassesOn a.differs) c y) (fun _ _ => False) s := by
    intro s hs hc
    refine (setSharedWithin_explores hs a _ (.start _ _ c s) hc .refl
      (Nat.lt_succ_of_le (unsettled_le_size _ s))).imp ?_
    rintro _ s' ⟨ys, hexplored, h⟩
    exact ⟨ys, h.rewrites, fun y => h.mem_iff hs hexplored⟩
  have ⟨col, hcol, _⟩ := hc
  unfold setShared
  simp only [ends_bind, ends_discard, ends_column_of hcol,
    ends_followers_of hs (Roster.contains_of_get? hcol), ends_get]
  refine ends_compoundIf _ ((hrun s hs hc).imp ?_) ((hrun (s.signal _) (hs.signal _) hc).imp ?_)
  · rintro _ s' ⟨ys, h, hys⟩
    exact h.retypes hs hc hys
  · rintro _ s' ⟨ys, h, hys⟩
    exact (h.amid_signals _).retypes hs hc hys

end Edit

/-- In a schema that can be reached, a stored column can always be given another type, precision,
scale or nullability. The attribute is passed to the columns that walks from it lead to, from column
to follower and leaving only columns with another value; these have the value then, and nothing else
is changed. -/
theorem Schema.Reachable.attribute_passes {s : Schema} (h : s.Reachable) {a : SharedAttribute}
    {c : ColumnId} (hc : s.Lacks a c) :
    ∃ s', (a.setter c).perform s = (.ok .done, s') ∧ s.Retypes a c s' := by
  have hends : (a.setter c).edit.Ends
      (fun reply s' => reply = .done ∧ Schema.Retypes a c s s') (fun _ _ => False) s := by
    rw [SharedAttribute.edit_setter]
    apply (Edit.ends_map _ _).mpr
    exact (Edit.setShared_retypes h.sound hc).imp fun _ _ h => ⟨rfl, h⟩
  obtain ⟨_, s', hok, rfl, hretypes⟩ := hends.exists_ok
  exact ⟨s', hok, hretypes⟩

/-- A chain of three columns, of which the second one has a type of its own and the third one does
not have that type. -/
def chainedMoves : List Move :=
  [.edit (.addTable { name := "a" }),
    .edit (.addTable { name := "b" }),
    .edit (.addTable { name := "c" }),
    .edit (.addColumn ⟨1⟩ { name := "id", rank := some 0 }),
    .edit (.createRelationship { name := "ab", identifying := true }),
    .edit (.attachRelationship ⟨1⟩ ⟨1⟩ ⟨2⟩ true),
    .edit (.createRelationship { name := "bc" }),
    .edit (.attachRelationship ⟨2⟩ ⟨2⟩ ⟨3⟩ true),
    .edit (.setDataType ⟨2⟩ .bigInt),
    .edit (.setDataType ⟨3⟩ .integer)]

theorem Schema.chained_reachable : Schema.Reachable ((Moment.start {}).run chainedMoves).schema :=
  ⟨{}, chainedMoves, rfl⟩

/-- The second column follows the first one, and the third one the second. -/
theorem Schema.chained_passes : ((Moment.start {}).run chainedMoves).schema.PassesTo ⟨1⟩ ⟨2⟩ ∧
    ((Moment.start {}).run chainedMoves).schema.PassesTo ⟨2⟩ ⟨3⟩ := by
  constructor
  all_goals exact chained_reachable.sound.mem_followers.mp (by decide +kernel)

/-- A precision that no column of the chain has goes to its end. -/
theorem Schema.attribute_passes_chained : ∃ s s' : Schema, s.Reachable ∧
    s.Lacks (.precision 9) ⟨1⟩ ∧ (Op.setPrecision ⟨1⟩ 9).perform s = (.ok .done, s') ∧
    s.Retypes (.precision 9) ⟨1⟩ s' ∧ s.Passed (.precision 9) ⟨1⟩ ⟨3⟩ := by
  have hlacks₁ : ((Moment.start {}).run chainedMoves).schema.Lacks (.precision 9) ⟨1⟩ :=
    isDue_differs_iff.mp (by decide +kernel)
  have hlacks₂ : ((Moment.start {}).run chainedMoves).schema.Lacks (.precision 9) ⟨2⟩ :=
    isDue_differs_iff.mp (by decide +kernel)
  obtain ⟨s', hok, h⟩ := chained_reachable.attribute_passes hlacks₁
  obtain ⟨hpasses₁, hpasses₂⟩ := chained_passes
  exact ⟨_, s', chained_reachable, hlacks₁, hok, h,
    .tail (.single ⟨hlacks₁, hpasses₁⟩) ⟨hlacks₂, hpasses₂⟩⟩

/-- An attribute is not passed to all that follow the column, directly or not: the second column of
the chain has the new type of the first one already, and so the third one keeps its own. -/
theorem Schema.not_passed_to_all : ¬ ∀ (s : Schema) (a : SharedAttribute) (c : ColumnId),
    s.Reachable → s.Lacks a c → ∀ y, Relation.ReflTransGen s.PassesTo c y →
      ∃ col, ((a.setter c).perform s).2.columns.get? y = some col ∧ a.write col = col := by
  intro hall
  have hlacks : ((Moment.start {}).run chainedMoves).schema.Lacks (.type .bigInt) ⟨1⟩ :=
    isDue_differs_iff.mp (by decide +kernel)
  have hkept : (((SharedAttribute.type .bigInt).setter ⟨1⟩).perform
      ((Moment.start {}).run chainedMoves).schema).2.Lacks (.type .bigInt) ⟨3⟩ :=
    isDue_differs_iff.mp (by decide +kernel)
  obtain ⟨col, hcol, hholds⟩ := hall _ (.type .bigInt) ⟨1⟩ chained_reachable hlacks ⟨3⟩
    (.tail (.single chained_passes.1) chained_passes.2)
  obtain ⟨col', hcol', hlacks'⟩ := hkept
  obtain rfl := Option.some.inj (hcol.symm.trans hcol')
  exact hlacks' hholds

end KeyedSchema
