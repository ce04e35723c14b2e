import KeyedSchema.Proofs.Lagging
import KeyedSchema.Proofs.Switches

/-!
# Attaching — connecting two tables without mapping anything

A relationship that is attached without mapping is connected, and that is all (`Linked`), as long as
its child is left at rest. But the child is in secondary-change mode meanwhile, and it is caught up
with when the mode is left. If it was behind before, what it exports is brought in line with its key
now. The relationship maps nothing even then, unless the key of the child feeds into the parent.
-/

namespace KeyedSchema

namespace Schema

open Relation

variable {s s' s'' s₁ s₂ : Schema} {t p ch : TableId} {r : RelationshipId}

/-- Whether two schemas differ at most in the switches of their tables and in events. -/
structure SameStock (s s' : Schema) : Prop where
  shape : SameShape s s'
  columns : s'.columns = s.columns
  columnsOf : ∀ t, s'.columnsOf t = s.columnsOf t
  relationships : s'.relationships = s.relationships

theorem SameObjects.sameStock (h : SameObjects s s') : SameStock s s' := by
  refine ⟨h.sameShape, h.columns, fun t => ?_, h.relationships⟩
  rw [Schema.columnsOf, h.tables, Schema.columnsOf]

theorem SameStock.trans (h : SameStock s s') (h' : SameStock s' s'') : SameStock s s'' :=
  ⟨h.shape.trans h'.shape, h'.columns.trans h.columns,
    fun t => (h'.columnsOf t).trans (h.columnsOf t), h'.relationships.trans h.relationships⟩

theorem sameStock_setSecondaryChange (t : TableId) (on : Bool) (s : Schema) :
    SameStock s (s.setSecondaryChange t on) := by
  refine ⟨sameShape_setSecondaryChange t on s, rfl, fun t' => ?_, rfl⟩
  unfold Schema.columnsOf
  rw [get?_setSecondaryChange]
  split
  · rename_i heq
    rw [heq, Option.elim_map]
    rfl
  · rfl

theorem sameStock_suspended (t : TableId) (s : Schema) : SameStock s (s.suspended t) := by
  unfold suspended
  split
  · exact (SameObjects.refl s).sameStock
  · exact sameStock_setSecondaryChange t true s

theorem sameStock_settled (t : TableId) (s : Schema) : SameStock s (s.settled t) :=
  (sameStock_setSecondaryChange t false s).trans (SameObjects.release t _).sameStock

/-- Whether a relationship without mappings has become live between two tables, with no column, no
list of columns and no other relationship or registration changed. -/
structure Linked (r : RelationshipId) (p ch : TableId) (s s' : Schema) : Prop where
  isLive : ∀ r', s'.isLive r' = (decide (r' = r) || s.isLive r')
  parent : s'.parent? r = some p
  child : s'.child? r = some ch
  isIdentifying : s'.isIdentifying r = s.isIdentifying r
  mappingsOf : s'.mappingsOf r = []
  columns : s'.columns = s.columns
  columnsOf : ∀ t, s'.columnsOf t = s.columnsOf t
  others : ∀ r', r' ≠ r → s'.relationships.get? r' = s.relationships.get? r'
  exported : ∀ r', r' ≠ r → ∀ t, r' ∈ s'.exportsOf t ↔ r' ∈ s.exportsOf t
  imported : ∀ r', r' ≠ r → ∀ t, r' ∈ s'.importsOf t ↔ r' ∈ s.importsOf t

theorem Linked.amid (h : Linked r p ch s₁ s₂) (h₁ : SameStock s s₁) (h₂ : SameStock s₂ s') :
    Linked r p ch s s' where
  isLive r' := by rw [h₂.shape.isLive, h.isLive, h₁.shape.isLive]
  parent := (h₂.shape.parent? r).trans h.parent
  child := (h₂.shape.child? r).trans h.child
  isIdentifying := by
    have hidentifying := h.isIdentifying
    unfold Schema.isIdentifying at hidentifying ⊢
    rw [h₂.relationships, hidentifying, h₁.relationships]
  mappingsOf := by
    have hmapped := h.mappingsOf
    unfold Schema.mappingsOf at hmapped ⊢
    rwa [h₂.relationships]
  columns := h₂.columns.trans (h.columns.trans h₁.columns)
  columnsOf t := by rw [h₂.columnsOf, h.columnsOf, h₁.columnsOf]
  others r' hne := by rw [h₂.relationships, h.others r' hne, h₁.relationships]
  exported r' hne t := by rw [h₂.shape.exportsOf, h.exported r' hne, h₁.shape.exportsOf]
  imported r' hne t := by rw [h₂.shape.importsOf, h.imported r' hne, h₁.shape.importsOf]

theorem Linked.mappingsOf_of_ne (h : Linked r p ch s s') {r' : RelationshipId} (hne : r' ≠ r) :
    s'.mappingsOf r' = s.mappingsOf r' := by
  unfold Schema.mappingsOf
  rw [h.others r' hne]

/-- A table that had nothing to catch up with has nothing to catch up with after a relationship has
been connected to it, unless that leads from the table to itself and there is a key to map. -/
theorem Linked.needsReconcile (h : Linked r p ch s s') (hs : s.Sound) (hs' : s'.Sound)
    (hneeds : s.needsReconcile ch = false) (hself : p = ch → s.primaryKey ch = []) :
    s'.needsReconcile ch = false := by
  refine needsReconcile_of_mappings hneeds h.columns (h.columnsOf ch) fun r' hr' => ?_
  rcases (hs'.mem_liveExportsOf_iff r' ch).mp hr' with ⟨hl, hp⟩
  by_cases heq : r' = r
  · subst heq
    obtain rfl := Option.some.inj (h.parent.symm.trans hp)
    rw [h.mappingsOf, hself rfl, List.map_nil]
  · have hl₀ : s.isLive r' = true := by simpa [h.isLive, heq] using hl
    have hp₀ : s.parent? r' = some ch := by rwa [parent?, h.others r' heq] at hp
    rw [h.mappingsOf_of_ne heq]
    exact (needsReconcile_eq_false.mp hneeds).2 r' ((hs.mem_liveExportsOf_iff r' ch).mpr ⟨hl₀, hp₀⟩)

/-- What attaching without mapping does before the mode is left. -/
theorem Attaches.linked (h : Attaches r p ch false s s') (hm : s.mappingsOf r = []) :
    Linked r p ch s (s.wired r p ch false) := by
  rcases h.wires.connected with ⟨s₁, hc, hw⟩
  generalize s.wired r p ch false = s₂ at hw ⊢
  have hsuspended := sameStock_suspended ch s
  -- nothing is mapped once the relationship is connected
  obtain rfl : s₁ = s₂ := hw.unique (.done s₁) |>.symm
  have hunmapped : s₁.mappingsOf r = [] := by
    calc s₁.mappingsOf r = (s.suspended ch).mappingsOf r := hc.mappingsOf r
      _ = s.mappingsOf r := by rw [Schema.mappingsOf, hsuspended.relationships, Schema.mappingsOf]
      _ = [] := hm
  have hlinked : Linked r p ch (s.suspended ch) s₁ :=
    ⟨hc.isLive, hc.parent, hc.child, hc.isIdentifying r, hunmapped, hc.columns, hc.columnsOf,
      hc.agree.relationship, fun _ hne _ => hc.agree.mem_exportsOf hne, fun _ hne _ => hc.agree.mem_importsOf hne⟩
  exact hlinked.amid hsuspended (SameObjects.refl s₁).sameStock

/-- Whether the magic of a table is on. -/
def hasMagic (s : Schema) (t : TableId) : Bool := (s.tables.get? t).any Table.magicEnabled

/-- Whether a table is not caught up with when a relationship is attached to it: it stays in
secondary-change mode, or its magic is off. -/
def Exempt (s : Schema) (t : TableId) : Prop := s.isHolding t = true ∨ s.hasMagic t = false

/-- Whether a table has nothing to catch up with when a relationship is attached to it: it is exempt,
or all that it exports follows its key. -/
def AtRest (s : Schema) (t : TableId) : Prop := s.Exempt t ∨ s.needsReconcile t = false

theorem hasMagic_of_switchesOf (h : s'.switchesOf t = s.switchesOf t) :
    s'.hasMagic t = s.hasMagic t := by
  have hread : ∀ s : Schema, s.hasMagic t = (s.switchesOf t).any Prod.fst := by
    intro s
    unfold hasMagic Schema.switchesOf
    cases s.tables.get? t <;> rfl
  rw [hread, hread, h]

/-- Without anything to catch up with, leaving the mode changes nothing that is stored. -/
theorem Exits.sameStock (h : Exits t s s')
    (hquiet : s.hasMagic t = false ∨ (s.settled t).needsReconcile t = false) : SameStock s s' := by
  cases h with
  | absent _ => exact (SameObjects.forget t s).sameStock
  | plain _ _ => exact sameStock_settled t s
  | caughtUp htbl hmagic hneeds _ =>
      rcases hquiet with hquiet | hquiet
      · rw [hasMagic, htbl, Option.any_some] at hquiet
        exact absurd (hquiet.symm.trans hmagic) Bool.noConfusion
      · exact absurd (hquiet.symm.trans hneeds) Bool.noConfusion

/-- Leaving the mode by hand. -/
theorem Exits.perform_eq (h : Exits t s s') (hs : s.Sound) (hholds : s.isHolding t = true) :
    (Op.setSecondaryChangeMode t false).perform s = (.ok .done, s') := by
  apply Edit.Ends.perform_eq
  apply (Edit.ends_map _ _).mpr
  apply (Edit.setSecondaryChangeMode_false_ends hs t).mono
  · rintro _ s'' ⟨-, ⟨hnot, -⟩ | ⟨-, h'⟩⟩
    · exact absurd (hnot.symm.trans hholds) Bool.noConfusion
    · exact ⟨rfl, h'.unique h⟩
  · rintro _ s'' (⟨habsent, -⟩ | ⟨-, -, hhalts⟩)
    · unfold isHolding at hholds
      rw [(Roster.contains_eq_false_iff _ _).mp habsent] at hholds
      exact Bool.noConfusion hholds
    · exact h.not_exitFails hs hhalts.fails

theorem Wires.hasMagic {auto : Bool} (h : Wires r p ch auto (s.suspended ch) s') :
    s'.hasMagic ch = s.hasMagic ch := by
  have hsuspended : (s.suspended ch).hasMagic ch = s.hasMagic ch := by
    unfold suspended
    split
    · rfl
    · unfold Schema.hasMagic
      rw [get?_setSecondaryChange, if_pos rfl]
      cases s.tables.get? ch <;> rfl
  exact (hasMagic_of_switchesOf (h.switchesOf ch)).trans hsuspended

/-- Catching up leaves the relationship where it is. -/
theorem Attaches.live (h : Attaches r p ch false s s') (hm : s.mappingsOf r = []) :
    s'.isLive r = true ∧ s'.parent? r = some p ∧ s'.child? r = some ch := by
  have hlinked := h.linked hm
  have hlive : (s.wired r p ch false).isLive r = true := by simp [hlinked.isLive]
  rcases h.settles with ⟨-, rfl⟩ | ⟨-, hexits⟩
  · exact ⟨hlive, hlinked.parent, hlinked.child⟩
  · have hshape := sameShape_settled ch (s.wired r p ch false)
    have hf := hexits.sameFrame h.wires.sound
    refine ⟨?_, ?_, ?_⟩
    · exact (hf.isLive r).trans ((hshape.isLive r).trans hlive)
    · exact (hf.parent? r).trans ((hshape.parent? r).trans hlinked.parent)
    · exact (hf.child? r).trans ((hshape.child? r).trans hlinked.child)

/-! ## Where catching up does not get to -/

section

variable {key : List ColumnId} {rs : List RelationshipId} {r' : RelationshipId}

/-- Bringing a relationship in line maps nothing that is exported by tables which the key of its
parent does not feed into. -/
theorem Reconciles.mappingsOf (h : Reconciles key r s s') (hs : s.Sound)
    (hr : Reconcilable key t r s) (hp : s.parent? r' = some p)
    (hout : ¬ ReflTransGen s.Feeds t p) : s'.mappingsOf r' ⊆ s.mappingsOf r' := by
  rcases h with ⟨s₁, s₂, hw₁, hkey, hw₂, rfl⟩
  rcases hs.prune hw₁ with ⟨hs₁, hsh⟩
  have hr₁ := hr.shrinks hsh hkey
  have hstays : ∀ task ∈ key.map (Grow.map s.tables.size r),
      task.Stays (ReflTransGen s₁.Feeds t) (ReflTransGen s₁.Feeds t) s₁ := by
    intro task ht
    rcases List.mem_map.mp ht with ⟨x, hx, rfl⟩
    exact ⟨hr₁.live, t, hr₁.parent, hr₁.owner x hx, .refl⟩
  calc (s₂.syncMappingOrder r).mappingsOf r'
    _ ⊆ s₂.mappingsOf r' := ((reranks_syncMappingOrder r s₂).mappingsOf r').subset
    _ ⊆ s₁.mappingsOf r' := hs₁.mappingsOf_elsewhere (s₁.fences_below t) hstays hw₂
        ((hsh.frame.parent? r').trans hp) (hsh.frame.feeds ▸ hout)
    _ ⊆ s.mappingsOf r' := hsh.mappingsOf r'

theorem mappingsOf_of_chain (h : Chain (Reconciles key) rs s s') (hs : s.Sound)
    (hrs : ∀ r ∈ rs, Reconcilable key t r s) (hp : s.parent? r' = some p)
    (hout : ¬ ReflTransGen s.Feeds t p) : s'.mappingsOf r' ⊆ s.mappingsOf r' := by
  refine (reconciling_of_chain (P := fun s₁ => s₁.mappingsOf r' ⊆ s.mappingsOf r') h hs hrs
    (.refl _) fun _ _ _ h₁ hr hsub hrec => ?_).2
  have hturn := hrec.mappingsOf h₁.sound hr ((h₁.frame.parent? r').trans hp)
    (h₁.frame.feeds ▸ hout)
  exact List.Subset.trans hturn hsub

theorem Exits.mappingsOf (h : Exits t s s') (hs : s.Sound) (hp : s.parent? r' = some p)
    (hout : ¬ ReflTransGen s.Feeds t p) : s'.mappingsOf r' ⊆ s.mappingsOf r' := by
  cases h with
  | absent _ => exact fun m hm => (SameObjects.forget t s).sameShape.mem_mappingsOf.mp hm
  | plain _ _ => exact fun m hm => (sameShape_settled t s).mem_mappingsOf.mp hm
  | @caughtUp tbl s₁ _ _ _ hchain =>
      have hshape := sameShape_catchUpStart t tbl.name s
      have hs₀ := hs.of_sameShape hshape
      have hout₀ : ¬ ReflTransGen (s.catchUpStart t tbl.name).Feeds t p := fun hwalk =>
        hout (ReflTransGen.mono (fun _ _ => (inherits_catchUpStart t tbl.name s).feeds) _ _ hwalk)
      intro m hm
      have hm₁ := (SameObjects.signal .compoundEditEnded s₁).sameShape.mem_mappingsOf.mp hm
      exact hshape.mem_mappingsOf.mp (mappingsOf_of_chain hchain hs₀
        (fun r hr => hs₀.reconcilable hr) ((hshape.parent? r').trans hp) hout₀ hm₁)

end

/-- A relationship that has been connected opens no way to its own parent. -/
theorem Linked.feeds (h : Linked r p ch s s') (hwalk : ReflTransGen s'.Feeds t p) :
    ReflTransGen s.Feeds t p := by
  induction hwalk using ReflTransGen.head_induction_on with
  | refl => exact .refl
  | @head u v hfeeds _ ih =>
      rcases hfeeds with ⟨r', hlink⟩
      by_cases heq : r' = r
      · -- the way starts at the parent
        obtain rfl := Option.some.inj (hlink.parent.symm.trans (heq ▸ h.parent))
        exact .refl
      · refine .head ⟨r', ?_, ?_, ?_, ?_⟩ ih
        · simpa [h.isLive, heq] using hlink.isLive
        · simpa [Schema.isIdentifying, h.others r' heq] using hlink.isIdentifying
        · simpa [parent?, h.others r' heq] using hlink.parent
        · simpa [child?, h.others r' heq] using hlink.child

/-- Unless the key of the child feeds into the parent, nothing is mapped. -/
theorem Attaches.unmapped (h : Attaches r p ch false s s') (hm : s.mappingsOf r = [])
    (hout : ¬ ReflTransGen s.Feeds ch p) : s'.mappingsOf r = [] := by
  have hlinked := h.linked hm
  rcases h.settles with ⟨-, rfl⟩ | ⟨-, hexits⟩
  · exact hlinked.mappingsOf
  · have hsub := hexits.mappingsOf h.wires.sound hlinked.parent fun hwalk =>
      hout (hlinked.feeds hwalk)
    rw [hlinked.mappingsOf] at hsub
    exact List.subset_nil.mp hsub

/-! ## At rest -/

/-- A table whose magic is on and that was outside of the mode is not exempt. -/
theorem Attaches.not_exempt (h : Attaches r p ch false s s') (hout : s.isHolding ch = false)
    (hmagic : (s.wired r p ch false).hasMagic ch = true) : ¬ s.Exempt ch := by
  rw [h.wires.hasMagic] at hmagic
  simp [Exempt, hout, hmagic]

/-- Attaching without mapping at rest changes nothing that is stored but the relationship, unless
that leads from the table to itself and there is a key to map. -/
theorem Attaches.linked_of_atRest (h : Attaches r p ch false s s') (hs : s.Sound)
    (hm : s.mappingsOf r = []) (hrest : s.AtRest ch)
    (hself : p = ch → s.Exempt ch ∨ s.primaryKey ch = []) : Linked r p ch s s' := by
  have hlinked := h.linked hm
  rcases h.settles with ⟨-, rfl⟩ | ⟨hout, hexits⟩
  · exact hlinked
  · refine hlinked.amid (SameObjects.refl s).sameStock (hexits.sameStock ?_)
    cases hmagic : (s.wired r p ch false).hasMagic ch with
    | false => exact .inl rfl
    | true =>
        have hnot := h.not_exempt hout hmagic
        have hsettled := sameStock_settled ch (s.wired r p ch false)
        have hend : Linked r p ch s ((s.wired r p ch false).settled ch) :=
          hlinked.amid (SameObjects.refl s).sameStock hsettled
        exact .inr (hend.needsReconcile hs (h.wires.sound.of_sameShape hsettled.shape)
          (hrest.resolve_left hnot) fun heq => (hself heq).resolve_left hnot)

end Schema

end KeyedSchema
