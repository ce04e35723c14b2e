import KeyedSchema.Proofs.Bounds
import KeyedSchema.Proofs.Cycle
import KeyedSchema.Proofs.Edits.Attributes
import KeyedSchema.Proofs.Identity

/-!
# Following — a change that columns hand on to those that follow them

Changes of a column are passed to its followers, but not every follower takes a change over: it has
to be *due*. The cascade visits a column, changes it, and then visits those of its followers that are
due. It keeps no record of the visited columns; but a column that has changed is no longer due, and
so the columns themselves are the record.

- `HandsOn ys s s'` : amid the cascade, exactly the columns `ys` have changed;
- `HandsOn.isDue_iff` : what is still due then is what was due and has not been visited;
- `HandsOn.mem_iff` : once the cascade has explored all there is, `ys` are the columns that walks
  from due column to due column lead to.
-/

namespace KeyedSchema

namespace Schema

open Relation

variable {s s' s₁ s₂ : Schema} {c x y : ColumnId} {ys : List ColumnId} {f : Column → Column}
  {due : Column → Bool}

/-! ## Columns that have changed -/

/-- A change of columns that leaves them in their place, and after which they are not due. -/
structure Settling (f : Column → Column) (due : Column → Bool) : Prop where
  table : ∀ col, (f col).table = col.table
  rank : ∀ col, (f col).rank = col.rank
  again : ∀ col, f (f col) = f col
  settled : ∀ col, due (f col) = false

/-- Whether two schemas differ at most in that the columns `ys` went through `f`. -/
structure Rewrites (f : Column → Column) (ys : List ColumnId) (s s' : Schema) : Prop where
  objects : SameObjects { s with columns := s'.columns } s'
  columnKeys : s'.columns.keys = s.columns.keys
  get? : ∀ y, s'.columns.get? y = if y ∈ ys then (s.columns.get? y).map f else s.columns.get? y

namespace Rewrites

theorem refl (f : Column → Column) (s : Schema) : Rewrites f [] s s :=
  ⟨⟨rfl, rfl, rfl, rfl, rfl, rfl, rfl⟩, rfl, fun _ => (if_neg List.not_mem_nil).symm⟩

theorem trans_objects (h : Rewrites f ys s s₁) (h' : SameObjects s₁ s₂) : Rewrites f ys s s₂ where
  objects := by
    have hsame := h.objects
    rw [← h'.columns] at hsame
    exact hsame.trans h'
  columnKeys := h'.columns ▸ h.columnKeys
  get? := h'.columns ▸ h.get?

/-- Nothing but columns differs when one more column goes through a change. -/
theorem objects_changeColumn (h : Rewrites f ys s s₁) (x : ColumnId) :
    SameObjects { s with columns := (s₁.changeColumn x f).columns } (s₁.changeColumn x f) :=
  ⟨h.objects.config, h.objects.tables, rfl, h.objects.relationships, h.objects.lastTable,
    h.objects.lastColumn, h.objects.lastRelationship⟩

/-- A column that has not changed yet changes. -/
theorem write (h : Rewrites f ys s s₁) (hx : x ∉ ys) :
    Rewrites f (ys ++ [x]) s (s₁.changeColumn x f) where
  objects := h.objects_changeColumn x
  columnKeys := (Roster.keys_modify _ _ _).trans h.columnKeys
  get? y := by
    by_cases hy : y = x
    · subst hy
      simp [changeColumn, h.get?, hx]
    · simp [changeColumn, h.get?, hy]

/-- A change that a column does not show is no change. -/
theorem idle (h : Rewrites f ys s s₁) {col : Column} (hcol : s₁.columns.get? x = some col)
    (hsame : f col = col) : Rewrites f ys s (s₁.changeColumn x f) where
  objects := h.objects_changeColumn x
  columnKeys := (Roster.keys_modify _ _ _).trans h.columnKeys
  get? y := by
    rw [← h.get?, changeColumn, Roster.get?_modify]
    split
    · rename_i hy
      rw [hy, hcol, Option.map_some, hsame]
    · rfl

/-- The signals of a compound edit do not matter to what has changed. -/
theorem amid_signals {e : Event} (h : Rewrites f ys (s.signal e) s₁) (e' : Event) :
    Rewrites f ys s (s₁.signal e') where
  objects := ⟨h.objects.config, h.objects.tables, rfl, h.objects.relationships,
    h.objects.lastTable, h.objects.lastColumn, h.objects.lastRelationship⟩
  columnKeys := h.columnKeys
  get? := h.get?

theorem contains (h : Rewrites f ys s s₁) (x : ColumnId) :
    s₁.columns.contains x = s.columns.contains x := by
  rw [Bool.eq_iff_iff, ← Roster.mem_keys_iff, ← Roster.mem_keys_iff, h.columnKeys]

theorem owner? (h : Rewrites f ys s s₁) (hf : Settling f due) (x : ColumnId) :
    s₁.owner? x = s.owner? x := by
  unfold Schema.owner?
  rw [h.get?]
  split
  · simp [Option.bind_map, hf.table]
  · rfl

theorem followers (h : Rewrites f ys s s₁) (hf : Settling f due) (x : ColumnId) :
    s₁.followers x = s.followers x := by
  refine followers_congr h.objects.tables h.objects.relationships (h.owner? hf x) ?_
  unfold Schema.rank?
  rw [h.get?]
  split
  · simp [Option.bind_map, hf.rank]
  · rfl

theorem sound (h : Rewrites f ys s s₁) (hf : Settling f due) (hs : s.Sound) : s₁.Sound := by
  have hsame := h.objects.sameShape
  refine hs.of_sameShape ⟨hsame.config, hsame.tableKeys, h.columnKeys, hsame.relationshipKeys,
    hsame.columnsOf, hsame.exportsOf, hsame.importsOf, h.owner? hf, hsame.parent?, hsame.child?,
    hsame.mappingsOf, hsame.lastTable, hsame.lastColumn, hsame.lastRelationship⟩

/-- Amid a cascade that starts in a sound schema the followers of a column are asked for without a
refusal. -/
theorem ends_followers (h : Rewrites f ys s s₁) (hf : Settling f due) (hs : s.Sound)
    (hx : s.columns.contains x = true) {Q : List ColumnId → Schema → Prop}
    {E : EditError → Schema → Prop} : (Edit.followers x).Ends Q E s₁ ↔ Q (s.followers x) s₁ := by
  rw [Edit.ends_followers_of (h.sound hf hs) ((h.contains x).trans hx), h.followers hf]

end Rewrites

/-! ## Columns that are due -/

/-- Whether a column is stored and due. -/
def isDue (due : Column → Bool) (s : Schema) (x : ColumnId) : Bool := (s.columns.get? x).any due

theorem isDue_iff : s.isDue due x = true ↔ ∃ col, s.columns.get? x = some col ∧ due col = true := by
  simp [isDue, Option.any_eq_true]

/-- Whether changes of the column `x` are passed to the column `y`, which is due. -/
def PassesOn (due : Column → Bool) (s : Schema) (x y : ColumnId) : Prop :=
  s.PassesTo x y ∧ s.isDue due y = true

/-- The followers of a column that are due. -/
def dueFollowers (due : Column → Bool) (s : Schema) (x : ColumnId) : List ColumnId :=
  (s.followers x).filter (s.isDue due)

theorem Sound.mem_dueFollowers (hs : s.Sound) : y ∈ s.dueFollowers due x ↔ s.PassesOn due x y := by
  rw [dueFollowers, List.mem_filter, hs.mem_followers, PassesOn]

/-- Visiting a column leaves fewer columns to change. -/
theorem unsettled_visit (hf : Settling f due) (hdue : s₁.isDue due x = true) (e : Event) :
    ((s₁.changeColumn x f).raise e).unsettled f < s₁.unsettled f := by
  obtain ⟨col, hcol, hdue⟩ := isDue_iff.mp hdue
  rw [unsettled_congr (SameObjects.raise e _)]
  refine unsettled_changeColumn_lt hf.again hcol fun hsame => ?_
  have hsettled := hf.settled col
  rw [hsame, hdue] at hsettled
  exact Bool.noConfusion hsettled

/-! ## Amid the cascade -/

/-- Whether a cascade that started at `c` in `s` has come to `s₁` by changing the columns `ys`. -/
structure HandsOn (f : Column → Column) (due : Column → Bool) (c : ColumnId) (s : Schema)
    (ys : List ColumnId) (s₁ : Schema) : Prop where
  rewrites : Rewrites f ys s s₁
  nodup : ys.Nodup
  reached : ∀ y ∈ ys, ReflTransGen (s.PassesOn due) c y

namespace HandsOn

theorem start (f : Column → Column) (due : Column → Bool) (c : ColumnId) (s : Schema) :
    HandsOn f due c s [] s :=
  ⟨.refl f s, List.nodup_nil, fun _ h => absurd h List.not_mem_nil⟩

/-- A column is still due if it was due and has not changed. -/
theorem isDue_iff (h : HandsOn f due c s ys s₁) (hf : Settling f due) :
    s₁.isDue due x = true ↔ x ∉ ys ∧ s.isDue due x = true := by
  unfold isDue
  rw [h.rewrites.get?]
  by_cases hx : x ∈ ys
  · simp [hx, Option.any_map, hf.settled]
  · simp [hx]

/-- The cascade comes to a column that is still due. -/
theorem visit (h : HandsOn f due c s ys s₁) (hf : Settling f due) (hdue : s₁.isDue due x = true)
    (hwalk : ReflTransGen (s.PassesOn due) c x) (e : Event) :
    HandsOn f due c s (ys ++ [x]) ((s₁.changeColumn x f).raise e) where
  rewrites := (h.rewrites.write ((h.isDue_iff hf).mp hdue).1).trans_objects (.raise e _)
  nodup := by
    rw [← List.concat_eq_append]
    exact h.nodup.concat ((h.isDue_iff hf).mp hdue).1
  reached y hy := by
    rcases List.mem_append.mp hy with hy | hy
    · exact h.reached y hy
    · exact List.mem_singleton.mp hy ▸ hwalk

/-- The cascade comes to a column that shows no change. -/
theorem idle (h : HandsOn f due c s ys s₁) {col : Column} (hcol : s₁.columns.get? x = some col)
    (hsame : f col = col) (e : Event) :
    HandsOn f due c s ys ((s₁.changeColumn x f).raise e) where
  rewrites := (h.rewrites.idle hcol hsame).trans_objects (.raise e _)
  nodup := h.nodup
  reached := h.reached

/-- With nothing visited before and all explored, the changed columns are those that walks lead to. -/
theorem mem_iff (h : HandsOn f due c s ys s₁) (hs : s.Sound)
    (hexplored : Explored (s.dueFollowers due) [c] [] ys) :
    y ∈ ys ↔ ReflTransGen (s.PassesOn due) c y := by
  have hlink : (fun a b => b ∈ s.dueFollowers due a) = s.PassesOn due := by
    funext a b
    exact propext hs.mem_dueFollowers
  constructor
  · exact h.reached y
  · rw [← hlink]
    exact hexplored.mem_of_walk

end HandsOn

end Schema

namespace Edit

open Schema

variable {s : Schema} {c x : ColumnId} {f : Column → Column} {due : Column → Bool}

/-- A compound edit or a plain one, whatever decides between them. -/
theorem ends_compoundIf {α : Type} {y : Edit α} {Q : α → Schema → Prop}
    {E : EditError → Schema → Prop} (when : Bool) {description : String} (hplain : y.Ends Q E s)
    (hcompound : y.Ends (fun a s' => Q a (s'.signal .compoundEditEnded))
      (fun e s' => E e (s'.signal .compoundEditEnded))
      (s.signal (.compoundEditStarted description))) :
    (compoundIf when description y).Ends Q E s := by
  unfold compoundIf
  split
  · exact (ends_compound description y).mpr hcompound
  · exact hplain

/-- A loop whose rounds each explore from one of the wanted places explores from all of them. -/
theorem ends_forM_explores (next : ColumnId → List ColumnId) (wanted : ColumnId → Bool)
    {turn : ColumnId → Edit Unit} {J : List ColumnId → Schema → Prop} {xs : List ColumnId}
    (hturn : ∀ x ∈ xs, ∀ ys s, J ys s → (turn x).Ends
      (fun _ s' => ∃ zs, Explored next ([x].filter wanted) ys zs ∧ J zs s') (fun _ _ => False) s) :
    ∀ {ys : List ColumnId} {s : Schema}, J ys s → (xs.forM turn).Ends
      (fun _ s' => ∃ zs, Explored next (xs.filter wanted) ys zs ∧ J zs s') (fun _ _ => False) s := by
  induction xs with
  | nil => exact fun {ys _} hJ => ⟨ys, .of_visited fun _ h => absurd h List.not_mem_nil, hJ⟩
  | cons x xs ih =>
      intro ys s hJ
      rw [ends_forM_cons]
      refine (hturn x (List.mem_cons_self ..) ys s hJ).imp ?_
      rintro _ s₁ ⟨zs, hx, hJ₁⟩
      refine (ih (fun x' hx' => hturn x' (List.mem_cons_of_mem _ hx')) hJ₁).imp ?_
      rintro _ s₂ ⟨ws, hxs, hJ₂⟩
      refine ⟨ws, ?_, hJ₂⟩
      rw [← List.singleton_append, List.filter_append]
      exact hx.append hxs

/-- The cascade has visited the column `x`. If it explores from each follower that is still due, and
changes nothing of the others, then it has explored from `x`. -/
theorem ends_followers_explored {turn : ColumnId → Edit Unit} {J : List ColumnId → Schema → Prop}
    (hs : s.Sound) (hf : Settling f due) (hJ : ∀ ys s₁, J ys s₁ → HandsOn f due c s ys s₁)
    (hdue : ∀ y ys s₁, J ys s₁ → s₁.isDue due y = true → s.PassesOn due x y → (turn y).Ends
      (fun _ s₂ => ∃ zs, Explored (s.dueFollowers due) [y] ys zs ∧ J zs s₂) (fun _ _ => False) s₁)
    (hidle : ∀ y ys s₁ col, J ys s₁ → s₁.columns.get? y = some col → due col = false →
      (turn y).Ends (fun _ s₂ => J ys s₂) (fun _ _ => False) s₁)
    {ys : List ColumnId} {s₁ : Schema} (h : J (ys ++ [x]) s₁) :
    ((s.followers x).forM turn).Ends
      (fun _ s₂ => ∃ zs, Explored (s.dueFollowers due) [x] ys zs ∧ J zs s₂) (fun _ _ => False)
      s₁ := by
  refine (ends_forM_explores (s.dueFollowers due) (s.isDue due) (fun y hy ys s₁ h₁ => ?_) h).imp ?_
  · have hiff := (hJ ys s₁ h₁).isDue_iff hf (x := y)
    by_cases hstill : s₁.isDue due y = true
    case pos =>
      have hwanted := (hiff.mp hstill).2
      rw [List.filter_cons_of_pos hwanted, List.filter_nil]
      exact hdue y ys s₁ h₁ hstill ⟨hs.mem_followers.mp hy, hwanted⟩
    -- a follower that is not due any more has been visited
    case neg =>
      have hstored : s₁.columns.contains y = true :=
        ((hJ ys s₁ h₁).rewrites.contains y).trans (followers_stored hs hy)
      obtain ⟨col, hcol⟩ := (Roster.contains_iff _ _).mp hstored
      have hcold : due col = false := by simpa [isDue, hcol] using hstill
      refine (hidle y ys s₁ col h₁ hcol hcold).imp fun _ s₂ h₂ => ⟨ys, .of_visited ?_, h₂⟩
      intro u hu
      obtain ⟨hu, hwanted⟩ := List.mem_filter.mp hu
      obtain rfl := List.mem_singleton.mp hu
      by_contra hnot
      exact hstill (hiff.mpr ⟨hnot, hwanted⟩)
  · rintro _ s₂ ⟨zs, hexplored, h₂⟩
    exact ⟨zs, hexplored.root fun u => by simp [or_comm], h₂⟩

end Edit

end KeyedSchema
