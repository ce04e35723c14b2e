import KeyedSchema.Proofs.Edits.Relationships
import KeyedSchema.Proofs.Loss

/-!
# CatchUp — leaving secondary-change mode

Catching up brings the relationships that a table exports in line with its key, one by one. Unlike
the other edits this one can be refused halfway: the key is read once, and looking after the child
columns of dropped mappings may take a column out that is listed in it.

- `Reconciles key r` : relationship `r` is brought in line with the columns `key`;
- `Stalls key r`     : bringing it in line stops at a column of `key` that is gone;
- `Loses key r`      : a column of `key` is doomed when the stray mappings of `r` are dropped;
- `Exits t`, `ExitFails t` : the two outcomes of leaving the mode, of which one excludes the other.
-/

namespace KeyedSchema

namespace Schema

variable {s s' : Schema} {t p ch : TableId} {c x : ColumnId} {r : RelationshipId}
  {key : List ColumnId} {rs : List RelationshipId}

/-! ## What catching up does -/

/-- Whether a relationship is brought in line with the columns `key` of its parent. -/
def Reconciles (key : List ColumnId) (r : RelationshipId) (s s' : Schema) : Prop :=
  ∃ s₁ s₂, WorksOff Prune.step [.sweep r key] s s₁ ∧ (∀ x ∈ key, s₁.columns.contains x = true) ∧
    WorksOff Grow.step (key.map (.map s.tables.size r)) s₁ s₂ ∧ s' = s₂.syncMappingOrder r

/-- Whether bringing a relationship in line stops at the first column of `key` that is gone. -/
structure Stalls (key : List ColumnId) (r : RelationshipId) (s s' : Schema) : Prop where
  halfway : ∃ s₁ done x rest, WorksOff Prune.step [.sweep r key] s s₁ ∧ key = done ++ x :: rest ∧
    (∀ y ∈ done, s₁.columns.contains y = true) ∧ s₁.columns.contains x = false ∧
    WorksOff Grow.step (done.map (.map s.tables.size r)) s₁ s'

/-- Whether bringing relationships in line one by one stops at the turn of one of them. -/
inductive StallsAny (key : List ColumnId) : List RelationshipId → Schema → Schema → Prop
  | here {r : RelationshipId} {rs : List RelationshipId} {s s' : Schema} :
      Stalls key r s s' → StallsAny key (r :: rs) s s'
  | later {r : RelationshipId} {rs : List RelationshipId} {s s₁ s' : Schema} :
      Reconciles key r s s₁ → StallsAny key rs s₁ s' → StallsAny key (r :: rs) s s'

/-- Whether a column of `key` goes when the stray mappings of a relationship are dropped. -/
def Loses (key : List ColumnId) (r : RelationshipId) (s : Schema) : Prop :=
  ∃ x ∈ key, s.Doomed r key x

/-- Whether a column of `key` goes at the turn of one of the relationships. -/
inductive LosesAny (key : List ColumnId) : List RelationshipId → Schema → Prop
  | here {r : RelationshipId} {rs : List RelationshipId} {s : Schema} :
      Loses key r s → LosesAny key (r :: rs) s
  | later {r : RelationshipId} {rs : List RelationshipId} {s s₁ : Schema} :
      Reconciles key r s s₁ → LosesAny key rs s₁ → LosesAny key (r :: rs) s

/-- What reconciling needs of a relationship: that it is live, its ends, and `key` being columns of
its parent. -/
structure Reconcilable (key : List ColumnId) (p : TableId) (r : RelationshipId) (s : Schema) :
    Prop where
  live : s.isLive r = true
  parent : s.parent? r = some p
  child : ∃ ch, s.child? r = some ch
  owner : ∀ x ∈ key, s.owner? x = some p

theorem Reconcilable.ready (h : Reconcilable key p r s) (depth : Nat) (hx : x ∈ key) :
    (Grow.map depth r x).Ready s := by
  obtain ⟨ch, hch⟩ := h.child
  exact ⟨p, ch, h.parent, hch, h.owner x hx⟩

/-- Dropping mappings leaves what reconciling needs, as long as the columns are there. -/
theorem Reconcilable.shrinks (h : Reconcilable key p r s) (hsh : Shrinks s s')
    (hkey : ∀ x ∈ key, s'.columns.contains x = true) : Reconcilable key p r s' := by
  obtain ⟨ch, hch⟩ := h.child
  refine ⟨(hsh.frame.isLive r).trans h.live, (hsh.frame.parent? r).trans h.parent,
    ⟨ch, (hsh.frame.child? r).trans hch⟩, fun x hx => ?_⟩
  exact (hsh.owner? x (hkey x hx)).trans (h.owner x hx)

theorem Reconcilable.sublist {key' : List ColumnId} (h : Reconcilable key p r s)
    (hsub : key'.Sublist key) : Reconcilable key' p r s :=
  ⟨h.live, h.parent, h.child, fun x hx => h.owner x (hsub.subset hx)⟩

theorem Reconcilable.grows (h : Reconcilable key p r s) (hg : Grows s s') :
    Reconcilable key p r s' := by
  obtain ⟨ch, hch⟩ := h.child
  refine ⟨(hg.frame.isLive r).trans h.live, (hg.frame.parent? r).trans h.parent,
    ⟨ch, (hg.frame.child? r).trans hch⟩, fun x hx => ?_⟩
  exact (hg.owner? (contains_of_owner? (h.owner x hx))).trans (h.owner x hx)

/-- How far bringing relationships in line has come: from the schema `s₀` on, the frame is the same,
and the columns of the key still are there. -/
structure Reconciling (key : List ColumnId) (p : TableId) (s₀ s : Schema) : Prop where
  sound : s.Sound
  frame : SameFrame s₀ s
  keeps : ∀ r, Reconcilable key p r s₀ → Reconcilable key p r s

theorem Reconciles.reconciling (h : Reconciles key r s s') (hs : s.Sound)
    (hr : Reconcilable key p r s) : Reconciling key p s s' := by
  obtain ⟨s₁, s₂, hw₁, hkey, hw₂, rfl⟩ := h
  obtain ⟨hs₁, hsh⟩ := hs.prune hw₁
  obtain ⟨hs₂, hg⟩ := hs₁.grow (fun task htask => by
    obtain ⟨x, hx, rfl⟩ := List.mem_map.mp htask
    exact (hr.shrinks hsh hkey).ready _ hx) hw₂
  have hg₂ := hg.trans (grows_syncMappingOrder r s₂)
  exact ⟨(reranks_syncMappingOrder r s₂).sound hs₂, hsh.frame.trans hg₂.frame,
    fun r' hr' => (hr'.shrinks hsh hkey).grows hg₂⟩

/-- A relationship whose turn stops halfway leaves a sound schema of the same frame. -/
theorem Stalls.sound (h : Stalls key r s s') (hs : s.Sound) (hr : Reconcilable key p r s) :
    s'.Sound ∧ SameFrame s s' := by
  obtain ⟨s₁, done, x, rest, hw₁, rfl, hdone, -, hw₂⟩ := h.halfway
  obtain ⟨hs₁, hsh⟩ := hs.prune hw₁
  have hr₁ := (hr.sublist (List.sublist_append_left done (x :: rest))).shrinks hsh hdone
  obtain ⟨hs', hg⟩ := hs₁.grow (fun task htask => by
    obtain ⟨y, hy, rfl⟩ := List.mem_map.mp htask
    exact hr₁.ready _ hy) hw₂
  exact ⟨hs', hsh.frame.trans hg.frame⟩

/-- A turn stops halfway only because a column of the key is lost. -/
theorem Stalls.loses (h : Stalls key r s s') (hs : s.Sound) (hr : Reconcilable key p r s) :
    Loses key r s := by
  obtain ⟨s₁, done, x, rest, hw, rfl, -, hgone, -⟩ := h.halfway
  have hx : x ∈ done ++ x :: rest := by simp
  exact ⟨x, hx, (hs.doomed_iff hr.live hw).mpr ⟨contains_of_owner? (hr.owner x hx), hgone⟩⟩

/-- What is brought in line loses no column of the key. -/
theorem Reconciles.not_loses (h : Reconciles key r s s') (hs : s.Sound)
    (hr : Reconcilable key p r s) : ¬ Loses key r s := by
  obtain ⟨s₁, -, hw, hkey, -⟩ := h
  rintro ⟨x, hx, hd⟩
  have := ((hs.doomed_iff hr.live hw).mp hd).2
  rw [hkey x hx] at this
  exact Bool.noConfusion this

/-- What every turn keeps, given what it needs, is kept by all of them. -/
theorem reconciling_of_chain {P : Schema → Prop} (h : Chain (Reconciles key) rs s s') (hs : s.Sound)
    (hrs : ∀ r ∈ rs, Reconcilable key p r s) (hP : P s)
    (hturn : ∀ r s₁ s₂, Reconciling key p s s₁ → Reconcilable key p r s₁ → P s₁ →
      Reconciles key r s₁ s₂ → P s₂) : Reconciling key p s s' ∧ P s' := by
  refine h.invariant (J := fun s₁ => Reconciling key p s s₁ ∧ P s₁) ?_
    ⟨⟨hs, .refl s, fun _ hr => hr⟩, hP⟩
  rintro r hr s₁ s₂ ⟨h₁, hP₁⟩ hrec
  have hr₁ := h₁.keeps r (hrs r hr)
  obtain ⟨hs₂, hf, hkeep⟩ := hrec.reconciling h₁.sound hr₁
  exact ⟨⟨hs₂, h₁.frame.trans hf, fun r' hr' => hkeep r' (h₁.keeps r' hr')⟩,
    hturn r s₁ s₂ h₁ hr₁ hP₁ hrec⟩

/-- Relationships that are brought in line one by one leave a sound schema of the same frame. -/
theorem reconciled_of_chain (h : Chain (Reconciles key) rs s s') (hs : s.Sound)
    (hrs : ∀ r ∈ rs, Reconcilable key p r s) : Reconciling key p s s' :=
  (reconciling_of_chain (P := fun _ => True) h hs hrs trivial fun _ _ _ _ _ _ _ => trivial).1

/-- Before the turn that stops halfway, the others are brought in line. -/
theorem StallsAny.cases (h : StallsAny key rs s s') : ∃ done r rest s₁, rs = done ++ r :: rest ∧
    Chain (Reconciles key) done s s₁ ∧ Stalls key r s₁ s' := by
  induction h with
  | @here r rs s _ h => exact ⟨[], r, rs, s, rfl, .nil s, h⟩
  | @later r' _ _ _ _ h₁ _ ih =>
      obtain ⟨done, r, rest, s₁, rfl, hchain, h⟩ := ih
      exact ⟨r' :: done, r, rest, s₁, rfl, .cons h₁ hchain, h⟩

theorem StallsAny.sound (h : StallsAny key rs s s') (hs : s.Sound)
    (hrs : ∀ r ∈ rs, Reconcilable key p r s) : s'.Sound ∧ SameFrame s s' := by
  obtain ⟨done, r, rest, s₁, rfl, hchain, h⟩ := h.cases
  have h₁ := reconciled_of_chain hchain hs fun r' hr' => hrs r' (List.mem_append_left _ hr')
  obtain ⟨hs', hf⟩ := h.sound h₁.sound (h₁.keeps r (hrs r (by simp)))
  exact ⟨hs', h₁.frame.trans hf⟩

theorem StallsAny.losesAny (h : StallsAny key rs s s') (hs : s.Sound)
    (hrs : ∀ r ∈ rs, Reconcilable key p r s) : LosesAny key rs s := by
  induction h with
  | here h => exact .here (h.loses hs (hrs _ (List.mem_cons_self ..)))
  | later h₁ _ ih =>
      obtain ⟨hs₁, -, hkeep⟩ := h₁.reconciling hs (hrs _ (List.mem_cons_self ..))
      exact .later h₁ (ih hs₁ fun r' hr' => hkeep r' (hrs r' (List.mem_cons_of_mem _ hr')))

theorem Reconciles.unique {s₁ s₂ : Schema} (h₁ : Reconciles key r s s₁)
    (h₂ : Reconciles key r s s₂) : s₁ = s₂ := by
  obtain ⟨t₁, u₁, hw₁, -, hg₁, rfl⟩ := h₁
  obtain ⟨t₂, u₂, hw₂, -, hg₂, rfl⟩ := h₂
  obtain rfl := hw₁.unique hw₂
  rw [hg₁.unique hg₂]

/-- Relationships that are all brought in line lose no column of the key. -/
theorem not_losesAny_of_chain (h : Chain (Reconciles key) rs s s') (hs : s.Sound)
    (hrs : ∀ r ∈ rs, Reconcilable key p r s) : ¬ LosesAny key rs s := by
  induction h with
  | nil => exact fun h => nomatch h
  | cons h₁ _ ih =>
      have hr := hrs _ (List.mem_cons_self ..)
      obtain ⟨hs₁, -, hkeep⟩ := h₁.reconciling hs hr
      intro h
      cases h with
      | here h => exact h₁.not_loses hs hr h
      | later h₁' h =>
          obtain rfl := h₁.unique h₁'
          exact ih hs₁ (fun r' hr' => hkeep r' (hrs r' (List.mem_cons_of_mem _ hr'))) h

/-! ## Leaving the mode -/

/-- The schema outside secondary-change mode, with the held events published. -/
def settled (t : TableId) (s : Schema) : Schema := (s.setSecondaryChange t false).release t

/-- The schema in which relationships are brought in line: the table's key is numbered. -/
def catchUpStart (t : TableId) (name : String) (s : Schema) : Schema :=
  ((s.settled t).signal (.compoundEditStarted s!"update keys exported by {name}")).normalizeKey t none

/-- Whether leaving secondary-change mode goes through. -/
inductive Exits (t : TableId) (s : Schema) : Schema → Prop
  /-- The table is gone. -/
  | absent (h : s.tables.contains t = false) : Exits t s (s.forget t)
  /-- There is nothing to catch up with. -/
  | plain {tbl : Table} (htbl : s.tables.get? t = some tbl)
      (h : tbl.magicEnabled = false ∨ (s.settled t).needsReconcile t = false) :
      Exits t s (s.settled t)
  | caughtUp {tbl : Table} {s₁ : Schema} (htbl : s.tables.get? t = some tbl)
      (hmagic : tbl.magicEnabled = true) (hneeds : (s.settled t).needsReconcile t = true)
      (h : Chain (Reconciles ((s.catchUpStart t tbl.name).primaryKey t))
        ((s.catchUpStart t tbl.name).liveExportsOf t) (s.catchUpStart t tbl.name) s₁) :
      Exits t s (s₁.signal .compoundEditEnded)

/-- Whether catching up loses a key column of the table. -/
def ExitFails (t : TableId) (s : Schema) : Prop :=
  ∃ tbl, s.tables.get? t = some tbl ∧ tbl.magicEnabled = true ∧
    (s.settled t).needsReconcile t = true ∧
    LosesAny ((s.catchUpStart t tbl.name).primaryKey t)
      ((s.catchUpStart t tbl.name).liveExportsOf t) (s.catchUpStart t tbl.name)

/-- Whether leaving the mode stops halfway. What is left has the frame of the schema outside the
mode. -/
structure Halts (t : TableId) (s s' : Schema) : Prop where
  fails : ExitFails t s
  sound : s'.Sound
  frame : SameFrame (s.settled t) s'
  stalls : ∃ name s₁, StallsAny ((s.catchUpStart t name).primaryKey t)
    ((s.catchUpStart t name).liveExportsOf t) (s.catchUpStart t name) s₁ ∧
      s' = s₁.signal .compoundEditEnded

theorem sameShape_setSecondaryChange (t : TableId) (on : Bool) (s : Schema) :
    SameShape s (s.setSecondaryChange t on) :=
  sameShape_changeTable t s (fun _ _ => .refl _) (fun _ => rfl) fun _ => rfl

theorem sameShape_setMagic (t : TableId) (on : Bool) (s : Schema) :
    SameShape s (s.setMagic t on) :=
  sameShape_changeTable t s (fun _ _ => .refl _) (fun _ => rfl) fun _ => rfl

/-- The schema in which a table is in secondary-change mode. -/
def suspended (t : TableId) (s : Schema) : Schema :=
  if s.isHolding t then s else s.setSecondaryChange t true

theorem sameShape_suspended (t : TableId) (s : Schema) : SameShape s (s.suspended t) := by
  unfold suspended
  split
  · rfl
  · exact sameShape_setSecondaryChange t true s

theorem sameShape_settled (t : TableId) (s : Schema) : SameShape s (s.settled t) :=
  (sameShape_setSecondaryChange t false s).trans (SameObjects.release t _).sameShape

theorem sameShape_catchUpStart (t : TableId) (name : String) (s : Schema) :
    SameShape s (s.catchUpStart t name) :=
  ((sameShape_settled t s).trans (SameObjects.signal _ _).sameShape).trans
    (reranks_normalizeKey t none _).sameShape

/-- What a table exports can be reconciled with its key. -/
theorem Sound.reconcilable (hs : s.Sound) (hr : r ∈ s.liveExportsOf t) :
    Reconcilable (s.primaryKey t) t r s := by
  obtain ⟨hl, hp⟩ := (hs.mem_liveExportsOf_iff r t).mp hr
  obtain ⟨-, ch, -, hch, -⟩ := isLive_iff.mp hl
  exact ⟨hl, hp, ⟨ch, hch⟩, fun x hx => (hs.listed t x).mp (mem_primaryKey.mp hx).1⟩

/-- Leaving the mode leaves a sound schema. -/
theorem Exits.sound (h : Exits t s s') (hs : s.Sound) : s'.Sound := by
  cases h with
  | absent h => exact hs.of_sameObjects (SameObjects.forget t s)
  | plain _ _ => exact hs.of_sameShape (sameShape_settled t s)
  | @caughtUp tbl s₁ htbl _ _ h =>
      have hs₀ := hs.of_sameShape (sameShape_catchUpStart t tbl.name s)
      exact (reconciled_of_chain h hs₀ fun r hr => hs₀.reconcilable hr).1.signal _

/-- Leaving the mode keeps the frame of the schema outside the mode. -/
theorem Exits.sameFrame (h : Exits t s s') (hs : s.Sound) : SameFrame (s.settled t) s' := by
  cases h with
  | absent h =>
      -- a table that is gone has no mode to leave
      have htables : (s.setSecondaryChange t false).tables = s.tables :=
        Roster.modify_of_not_contains h _
      exact ⟨rfl, congrArg (Roster.map Table.frame) htables.symm, rfl, rfl, rfl⟩
  | plain _ _ => exact .refl _
  | @caughtUp tbl s₁ htbl _ _ h =>
      have hs₀ := hs.of_sameShape (sameShape_catchUpStart t tbl.name s)
      have hf := (reconciled_of_chain h hs₀ fun r hr => hs₀.reconcilable hr).2
      have hstart : SameFrame (s.settled t) (s.catchUpStart t tbl.name) :=
        (SameObjects.signal _ _).sameFrame.trans (reranks_normalizeKey t none _).sameFrame
      exact (hstart.trans hf).trans (SameObjects.signal _ _).sameFrame

theorem Exits.config (h : Exits t s s') (hs : s.Sound) : s'.config = s.config :=
  (h.sameFrame hs).config.trans (sameShape_settled t s).config

/-- Catching up that stops at the turn of a relationship stops halfway. -/
theorem halts_of_stallsAny {tbl : Table} (hs : s.Sound) (htbl : s.tables.get? t = some tbl)
    (hmagic : tbl.magicEnabled = true) (hneeds : (s.settled t).needsReconcile t = true)
    (h : StallsAny ((s.catchUpStart t tbl.name).primaryKey t)
      ((s.catchUpStart t tbl.name).liveExportsOf t) (s.catchUpStart t tbl.name) s') :
    Halts t s (s'.signal .compoundEditEnded) := by
  have hs₁ := hs.of_sameShape (sameShape_catchUpStart t tbl.name s)
  have hrs := fun r hr => hs₁.reconcilable (r := r) (t := t) hr
  obtain ⟨hs', hf⟩ := h.sound hs₁ hrs
  have hstart : SameFrame (s.settled t) (s.catchUpStart t tbl.name) :=
    (SameObjects.signal _ _).sameFrame.trans (reranks_normalizeKey t none _).sameFrame
  exact ⟨⟨tbl, htbl, hmagic, hneeds, h.losesAny hs₁ hrs⟩, hs'.signal _,
    (hstart.trans hf).trans (SameObjects.signal _ _).sameFrame, tbl.name, s', h, rfl⟩

/-- What leaving the mode comes to is determined. -/
theorem Exits.unique {s₁ s₂ : Schema} (h₁ : Exits t s s₁) (h₂ : Exits t s s₂) : s₁ = s₂ := by
  have habsent : ∀ {tbl : Table}, s.tables.contains t = false → s.tables.get? t ≠ some tbl :=
    fun habs htbl => absurd (habs.symm.trans (Roster.contains_of_get? htbl)) Bool.noConfusion
  have hneeds : ∀ {tbl tbl' : Table}, s.tables.get? t = some tbl → s.tables.get? t = some tbl' →
      (tbl.magicEnabled = false ∨ (s.settled t).needsReconcile t = false) →
      ¬ (tbl'.magicEnabled = true ∧ (s.settled t).needsReconcile t = true) := by
    rintro tbl tbl' htbl htbl' hquiet ⟨hmagic, hneeds⟩
    obtain rfl := Option.some.inj (htbl.symm.trans htbl')
    rcases hquiet with hquiet | hquiet
    · exact absurd (hquiet.symm.trans hmagic) Bool.noConfusion
    · exact absurd (hquiet.symm.trans hneeds) Bool.noConfusion
  cases h₁ with
  | absent habs =>
      cases h₂ with
      | absent _ => rfl
      | plain htbl _ => exact absurd htbl (habsent habs)
      | caughtUp htbl _ _ _ => exact absurd htbl (habsent habs)
  | plain htbl hquiet =>
      cases h₂ with
      | absent habs => exact absurd htbl (habsent habs)
      | plain _ _ => rfl
      | caughtUp htbl' hmagic hdue _ => exact absurd ⟨hmagic, hdue⟩ (hneeds htbl htbl' hquiet)
  | caughtUp htbl hmagic hdue hchain =>
      cases h₂ with
      | absent habs => exact absurd htbl (habsent habs)
      | plain htbl' hquiet => exact absurd ⟨hmagic, hdue⟩ (hneeds htbl' htbl hquiet)
      | caughtUp htbl' _ _ hchain' =>
          obtain rfl := Option.some.inj (htbl.symm.trans htbl')
          obtain rfl := Chain.unique (fun _ _ _ _ h h' => h.unique h') hchain hchain'
          rfl

/-- Leaving the mode goes through or fails, but not both. -/
theorem Exits.not_exitFails (h : Exits t s s') (hs : s.Sound) : ¬ ExitFails t s := by
  rintro ⟨tbl, htbl, hmagic, hneeds, hloses⟩
  cases h with
  | absent h =>
      rw [Roster.contains_of_get? htbl] at h
      exact Bool.noConfusion h
  | plain htbl' h =>
      obtain rfl := Option.some.inj (htbl.symm.trans htbl')
      rcases h with h | h
      · rw [hmagic] at h
        exact Bool.noConfusion h
      · rw [hneeds] at h
        exact Bool.noConfusion h
  | caughtUp htbl' _ _ h =>
      obtain rfl := Option.some.inj (htbl.symm.trans htbl')
      have hs₁ := hs.of_sameShape (sameShape_catchUpStart t tbl.name s)
      exact not_losesAny_of_chain h hs₁ (fun r hr => hs₁.reconcilable hr) hloses

end Schema

namespace Edit

open Schema

variable {s s₀ : Schema} {t p ch : TableId} {c x : ColumnId} {r : RelationshipId}
  {key : List ColumnId}

/-! ## Reconciling -/

/-- A column that is gone cannot be mapped. -/
theorem mapIfMissing_lost (hs : s.Sound) (hch : s.child? r = some ch)
    (hx : s.columns.contains x = false) :
    (mapIfMissing promote r x).Ends (fun _ _ => False)
      (fun _ s' => s' = s) s := by
  obtain ⟨rel, hrel, hrelch⟩ := Option.bind_eq_some_iff.mp hch
  have hm : s.mappingsOf r = rel.mappings := by simp [mappingsOf, hrel]
  have hnone : rel.mappingOf? x = none := by
    unfold Relationship.mappingOf?
    rw [List.find?_eq_none]
    intro m hmem
    simp only [decide_eq_true_eq]
    rintro rfl
    rw [← hm] at hmem
    rw [hs.pk_stored hmem] at hx
    exact Bool.false_ne_true hx.symm
  unfold mapIfMissing adoptOrCreate
  simp only [ends_bind, ends_relationship_of hrel, hnone, Option.isNone_none, if_true, ends_discard,
    hrelch, ends_require_some, ends_column]
  refine ⟨fun col hcol => ?_, fun _ => trivial⟩
  rw [Roster.contains_of_get? hcol] at hx
  exact absurd hx.symm Bool.false_ne_true

/-- Mapping the columns of a list in one relationship fails at the first one that is gone. -/
theorem mapKey_ends (hch : ∃ ch, s.child? r = some ch) (key : List ColumnId) : ∀ {s₁ : Schema},
    s₁.Sound → SameFrame s s₁ → (∀ x ∈ key, x.val ≤ s₁.lastColumn) →
    (∀ x ∈ key, s₁.columns.contains x = true → (Grow.map s.tables.size r x).Ready s₁) →
    (key.forM (mapIfMissing promote r)).Ends
      (fun _ s' => (∀ x ∈ key, s₁.columns.contains x = true) ∧
        WorksOff Grow.step (key.map (.map s.tables.size r)) s₁ s')
      (fun _ s' => ∃ done x rest, key = done ++ x :: rest ∧
        (∀ y ∈ done, s₁.columns.contains y = true) ∧ s₁.columns.contains x = false ∧
        WorksOff Grow.step (done.map (.map s.tables.size r)) s₁ s') s₁ := by
  obtain ⟨ch, hch⟩ := hch
  -- the list was read before, so a column of it may be gone when its turn comes
  induction key with
  | nil => exact fun {s₁} _ _ _ _ => ⟨by simp, .done s₁⟩
  | cons x key ih =>
      intro s₁ hs₁ hf hlast hready
      rw [ends_forM_cons]
      cases hx : s₁.columns.contains x with
      | false =>
          refine (mapIfMissing_lost hs₁ ((hf.child? r).trans hch) hx).mono
            (fun _ _ h => h.elim) ?_
          rintro _ s' rfl
          exact ⟨[], x, key, rfl, by simp, hx, .done s'⟩
      | true =>
          have hready_x := hready x (List.mem_cons_self ..) hx
          refine (mapIfMissing_worksOff (promotes_promote s) hs₁ hf hready_x).total
            fun _ s₂ hw => ?_
          obtain ⟨hs₂, hg⟩ := hs₁.grow (by simpa using hready_x) hw
          -- a column that is gone does not come back
          have hback : ∀ y ∈ key, s₂.columns.contains y = true → s₁.columns.contains y = true := by
            intro y hy hy₂
            rcases hg.fresh y hy₂ with h | h
            · exact h
            · have := hlast y (List.mem_cons_of_mem _ hy)
              omega
          refine (ih hs₂ (hf.trans hg.frame) (fun y hy => ?_) (fun y hy hy₂ => ?_)).mono
            (fun _ s' h => ⟨?_, ?_⟩) fun _ s' h => ?_
          · exact Nat.le_trans (hlast y (List.mem_cons_of_mem _ hy)) hg.lastColumn
          · exact hg.ready (hready y (List.mem_cons_of_mem _ hy) (hback y hy hy₂))
          · intro y hy
            rcases List.mem_cons.mp hy with rfl | hy
            · exact hx
            · exact hback y hy (h.1 y hy)
          · exact hw.append h.2
          · obtain ⟨done, y, rest, rfl, hdone, hgone, hw'⟩ := h
            refine ⟨x :: done, y, rest, rfl, fun z hz => ?_, ?_, hw.append hw'⟩
            · rcases List.mem_cons.mp hz with rfl | hz
              · exact hx
              · exact hback z (List.mem_append_left _ hz) (hdone z hz)
            · rw [Bool.eq_false_iff] at hgone ⊢
              exact fun h => hgone (hg.contains h)

theorem reconcileRelationship_ends (hs : s.Sound) (hr : Reconcilable key p r s) :
    (reconcileRelationship key r).Ends (fun _ s' => Reconciles key r s s')
      (fun _ s' => Stalls key r s s') s := by
  obtain ⟨rel, hrel⟩ := (Roster.contains_iff _ _).mp (contains_of_parent? hr.parent)
  have hm : (s.mappingsOf r).length = rel.mappings.length := by simp [mappingsOf, hrel]
  unfold reconcileRelationship
  simp only [ends_bind, ends_relationship_of hrel]
  refine (dropStrayMappings_worksOff key _ hs (Roster.contains_of_get? hrel)
    (Nat.le_succ_of_le (Nat.le_of_eq hm))).total fun _ s₁ hw₁ => ?_
  obtain ⟨hs₁, hsh⟩ := hs.prune hw₁
  refine (mapKey_ends hr.child key hs₁ hsh.frame (fun x hx => ?_) fun x hx hx₁ => ?_).mono
    (fun _ s₂ h => ?_) fun _ s' h => ?_
  · rw [hsh.lastColumn]
    exact hs.column_fresh x (contains_of_owner? (hr.owner x hx))
  · obtain ⟨ch, hch⟩ := hr.child
    exact ⟨p, ch, (hsh.frame.parent? r).trans hr.parent, (hsh.frame.child? r).trans hch,
      (hsh.owner? x hx₁).trans (hr.owner x hx)⟩
  · -- mapping columns takes no relationship out
    have hframe := (hs₁.grow (fun task htask => by
      obtain ⟨x, hx, rfl⟩ := List.mem_map.mp htask
      exact (hr.shrinks hsh h.1).ready _ hx) h.2).2.frame
    have hp₂ := (hframe.parent? r).trans ((hsh.frame.parent? r).trans hr.parent)
    rw [ends_syncMappingOrder_of (contains_of_parent? hp₂)]
    exact ⟨s₁, s₂, hw₁, h.1, h.2, rfl⟩
  · obtain ⟨done, x, rest, hkey, h⟩ := h
    exact ⟨s₁, done, x, rest, hw₁, hkey, h⟩

/-- Bringing relationships in line goes through or stops at the turn of one of them. -/
theorem reconcileAll_ends (rs : List RelationshipId) : ∀ {s : Schema}, s.Sound →
    (∀ r ∈ rs, Reconcilable key p r s) →
    (rs.forM (reconcileRelationship key)).Ends
      (fun _ s' => Chain (Reconciles key) rs s s')
      (fun _ s' => StallsAny key rs s s') s := by
  induction rs with
  | nil => exact fun {s} _ _ => .nil s
  | cons r rs ih =>
      intro s hs hrs
      have hr := hrs r (List.mem_cons_self ..)
      rw [ends_forM_cons]
      refine (reconcileRelationship_ends hs hr).mono (fun _ s₁ h₁ => ?_) fun _ s' h => .here h
      obtain ⟨hs₁, hf, hkeep⟩ := h₁.reconciling hs hr
      exact (ih hs₁ fun r' hr' => hkeep r' (hrs r' (List.mem_cons_of_mem _ hr'))).mono
        (fun _ s' h => .cons h₁ h) fun _ s' h => .later h₁ h

/-! ## Leaving the mode -/

theorem reconcileExported_ends (hs : s.Sound) (ht : s.tables.contains t = true) :
    (reconcileExported t).Ends
      (fun _ s' => Chain (Reconciles ((s.normalizeKey t none).primaryKey t))
        ((s.normalizeKey t none).liveExportsOf t) (s.normalizeKey t none) s')
      (fun _ s' => StallsAny ((s.normalizeKey t none).primaryKey t)
        ((s.normalizeKey t none).liveExportsOf t) (s.normalizeKey t none) s') s := by
  obtain ⟨tbl, htbl⟩ := (Roster.contains_iff _ _).mp ht
  have hs₁ := (reranks_normalizeKey t none s).sound hs
  unfold reconcileExported
  simp only [ends_bind, ends_discard, ends_table_of htbl, ends_normalizeKey_of hs ht, ends_get]
  exact reconcileAll_ends _ hs₁ fun r hr => hs₁.reconcilable hr

/-- Leaving the mode goes through, or stops halfway because catching up loses a key column. -/
theorem exitSecondaryChange_ends (hs : s.Sound) (t : TableId) :
    (exitSecondaryChange t).Ends (fun _ s' => Exits t s s') (fun _ s' => Halts t s s') s := by
  unfold exitSecondaryChange
  simp only [ends_bind, ends_get]
  cases htbl : s.tables.get? t with
  | none =>
      exact .absent ((Roster.contains_eq_false_iff _ _).mpr htbl)
  | some tbl =>
      -- the mode is left and events are published before catching up
      have hs₁ := hs.of_sameShape (sameShape_settled t s)
      simp only [ends_bind, ends_change]
      change (if tbl.magicEnabled = true then _ else _ : Edit Unit).Ends _ _ (s.settled t)
      cases hm : tbl.magicEnabled with
      | false => exact .plain htbl (.inl hm)
      | true =>
          simp only [if_true, ends_bind, ends_get]
          cases hn : (s.settled t).needsReconcile t with
          | false => exact .plain htbl (.inr hn)
          | true =>
              simp only [if_true, ends_compound]
              have ht₁ : ((s.settled t).signal (.compoundEditStarted
                  s!"update keys exported by {tbl.name}")).tables.contains t = true := by
                rw [(SameObjects.signal _ _).sameShape.contains_table,
                  (sameShape_settled t s).contains_table]
                exact Roster.contains_of_get? htbl
              refine (reconcileExported_ends (hs₁.signal _) ht₁).mono (fun _ s' h => ?_)
                fun _ s' h => ?_
              · exact .caughtUp htbl hm hn h
              · exact halts_of_stallsAny hs htbl hm hn h

/-! ## Entering and leaving -/

/-- Entering the mode never fails on a table of the schema; the answer says whether the table was
outside. -/
theorem enterSecondaryChange_ends (ht : s.tables.contains t = true) :
    (enterSecondaryChange t).Ends (fun entered s' => entered = !s.isHolding t ∧ s' = s.suspended t)
      (fun _ _ => False) s := by
  obtain ⟨tbl, htbl⟩ := (Roster.contains_iff _ _).mp ht
  have hh : s.isHolding t = tbl.inSecondaryChange := by simp [isHolding, htbl]
  unfold enterSecondaryChange suspended
  simp only [ends_bind, ends_table_of htbl]
  cases hx : tbl.inSecondaryChange with
  | true => exact ⟨by simp [hh, hx], by simp [hh, hx]⟩
  | false => exact ⟨by simp [hh, hx], by simp [hh, hx]⟩

theorem enterSecondaryChange_atomic (s : Schema) (t : TableId) :
    (enterSecondaryChange t).Atomic (fun _ s' => s' = s.suspended t) s := by
  cases ht : s.tables.contains t with
  | true => exact (enterSecondaryChange_ends ht).total fun _ _ h => h.2
  | false =>
      have hnone := (Roster.contains_eq_false_iff _ _).mp ht
      unfold enterSecondaryChange Atomic
      simp only [ends_bind, ends_table, hnone]
      exact ⟨fun _ h => by simp at h, fun _ => .refl s⟩

theorem setSecondaryChangeMode_true_atomic (s : Schema) (t : TableId) :
    (setSecondaryChangeMode t true).Atomic (fun _ s' => s' = s.suspended t) s := by
  unfold setSecondaryChangeMode Atomic
  simp only [if_true, ends_discard]
  exact enterSecondaryChange_atomic s t

/-- Leaving the mode: nothing happens outside of it. -/
theorem setSecondaryChangeMode_false_ends (hs : s.Sound) (t : TableId) :
    (setSecondaryChangeMode t false).Ends
      (fun _ s' => s.tables.contains t = true ∧
        ((s.isHolding t = false ∧ s' = s) ∨ (s.isHolding t = true ∧ Exits t s s')))
      (fun _ s' => (s.tables.contains t = false ∧ s' = s) ∨
        (s.tables.contains t = true ∧ s.isHolding t = true ∧ Halts t s s')) s := by
  unfold setSecondaryChangeMode
  simp only [Bool.false_eq_true, if_false, ends_bind, ends_table]
  refine ⟨fun tbl htbl => ?_, fun hnone => .inl ⟨(Roster.contains_eq_false_iff _ _).mpr hnone, trivial⟩⟩
  have ht := Roster.contains_of_get? htbl
  have hh : s.isHolding t = tbl.inSecondaryChange := by simp [isHolding, htbl]
  cases hx : tbl.inSecondaryChange with
  | false => exact ⟨ht, .inl ⟨hh.trans hx, rfl⟩⟩
  | true =>
      exact (exitSecondaryChange_ends hs t).mono
        (fun _ s' h => ⟨ht, .inr ⟨hh.trans hx, h⟩⟩)
        fun _ s' h => .inr ⟨ht, hh.trans hx, h⟩

theorem setMagicEnabled_atomic (s : Schema) (t : TableId) (on : Bool) :
    (setMagicEnabled t on).Atomic (fun _ s' => s' = s.setMagic t on) s := by
  unfold setMagicEnabled Atomic
  simp only [ends_bind, ends_discard, ends_table]
  exact ⟨fun _ _ => rfl, fun _ => .refl s⟩

/-- An edit within a scope: the scope is opened, and closed whatever the edit ends in. -/
theorem ends_within {α : Type} (scope : Scope) (body : Edit α) {Q : α → Schema → Prop}
    {E : EditError → Schema → Prop} :
    (within scope body).Ends Q E s ↔ (enter scope).Ends (fun opened => body.Ends
      (fun a => (leave opened).Ends (fun _ s' => Q a s') E)
      fun e => (leave opened).Ends (fun _ s' => E e s') fun _ s' => E e s') E s := by
  unfold within
  simp only [ends_bind, ends_attempt, ends_ofOutcome, settle]
  simp

end Edit

end KeyedSchema
