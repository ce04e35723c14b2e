import KeyedSchema.Proofs.Cycle
import KeyedSchema.Proofs.Step

/-!
# Acyclicity — keys never feed into themselves

Cascades leave the links of a schema alone, and most edits add none. A relationship becomes a link
when it is registered on its second side, attached or marked as identifying; each of these edits
checks for circles, so every schema that can be reached is acyclic.
-/

namespace KeyedSchema

namespace Schema

variable {s s' : Schema} {t p ch : TableId} {r : RelationshipId}

/-! ## Cascades -/

theorem coversPromotion_sameFrame : CoversPromotion SameFrame where
  refl := .refl
  trans := .trans
  changeRank c old new s := (reranks_changeRank c old new s).sameFrame
  normalizeKey t placed s := (reranks_normalizeKey t placed s).sameFrame
  placeColumn := sameFrame_placeColumn
  appendMapping := sameFrame_appendMapping
  syncMappingOrder r s := (reranks_syncMappingOrder r s).sameFrame

theorem sameFrame_of_grow {tasks : List Grow} (h : WorksOff Grow.step tasks s s') :
    SameFrame s s' := coversPromotion_sameFrame.run h

/-! ## Edits that add no links -/

/-- A change of one relationship leaves the other links as they were. -/
theorem AgreeBut.carries {r' : RelationshipId} {a b : TableId} (h : AgreeBut r s s') (hne : r' ≠ r)
    (hc : s'.Carries r' a b) : s.Carries r' a b := by
  have hid := hc.isIdentifying
  have hp := hc.parent
  have hch := hc.child
  unfold isIdentifying at hid
  unfold parent? at hp
  unfold child? at hch
  rw [h.relationship r' hne] at hid hp hch
  exact ⟨(h.isLive hne).symm.trans hc.isLive, hid, hp, hch⟩

/-- What is put in place of a relationship is no link unless it is live. -/
theorem Replaces.inherits {rel : Option Relationship} (h : Replaces r rel s s')
    (hl : s'.isLive r = false) : Inherits s s' := by
  intro r' p ch hc
  refine h.agreeBut.carries ?_ hc
  rintro rfl
  exact absurd (hl.symm.trans hc.isLive) Bool.noConfusion

theorem AmidEvents.inherits {R : Schema → Schema → Prop} (h : AmidEvents R s s') (hs : s.Sound)
    (hR : ∀ s₁ s₂, s₁.Sound → R s₁ s₂ → Inherits s₁ s₂) : Inherits s s' := by
  obtain ⟨s₁, s₂, h₁, h, h₂⟩ := h
  exact (h₁.sameFrame.inherits.trans (hR s₁ s₂ (hs.of_sameObjects h₁) h)).trans h₂.sameFrame.inherits

theorem Untouched.inherits (h : Untouched s s') : Inherits s s' := by
  rw [h.same]
  exact fun _ _ _ hc => ⟨hc.isLive, hc.isIdentifying, hc.parent, hc.child⟩

theorem SameSkeleton.inherits (h : SameSkeleton s s') : Inherits s s' :=
  h.shape.inherits h.isIdentifying

theorem Deregisters.inherits (h : Deregisters s s') : Inherits s s' := by
  have hre := h.reregisters
  intro r p ch hc
  exact ⟨h.isLive_of hc.isLive, (hre.isIdentifying r).symm.trans hc.isIdentifying,
    (hre.parent? r).symm.trans hc.parent, (hre.child? r).symm.trans hc.child⟩

theorem Unlinked.inherits (h : Unlinked r s s') : Inherits s s' := by
  intro r' p ch hc
  have hl := hc.isLive
  rw [h.isLive, Bool.and_eq_true] at hl
  exact ⟨hl.2, (h.isIdentifying r').symm.trans hc.isIdentifying, (h.parent? r').symm.trans hc.parent,
    (h.child? r').symm.trans hc.child⟩

theorem inherits_dropRelationship (r : RelationshipId) (s : Schema) :
    Inherits s (s.dropRelationship r) := by
  refine (replaces_dropRelationship r s).inherits ?_
  rw [isLive_dropRelationship]
  simp

/-- A relationship without registrations is no link, whatever its ends are. -/
theorem inherits_changeRelationship {f : Relationship → Relationship} (hs : s.Sound)
    (h : SameObjects (s.changeRelationship r f) s') (hreg : s.isRegistered r = false) :
    Inherits s s' := by
  have hrep := replaces_changeRelationship h
  exact hrep.inherits (hrep.not_isLive (notMem_of_not_isRegistered hs hreg).1)

theorem coversDismissal_inherits : CoversDismissal Inherits where
  refl := .refl
  trans := .trans
  unlink hs r := (hs.unlinked r).inherits
  check hs hw := (hs.prune hw).2.frame.inherits
  drop _ := inherits_dropRelationship _ _

theorem inherits_eraseTable (t : TableId) (i : Nat) (s : Schema) : Inherits s (s.eraseTable t i) := by
  intro r p ch hc
  have hid := hc.isIdentifying
  unfold isIdentifying at hid
  rw [relationships_eraseTable] at hid
  exact ⟨isLive_of_eraseTable hc.isLive, hid, (parent?_eraseTable ..).symm.trans hc.parent,
    (child?_eraseTable ..).symm.trans hc.child⟩

theorem Removes.inherits (h : Removes t s s') (hs : s.Sound) : Inherits s s' := by
  obtain ⟨-, s₁, i, hd, ho⟩ := h
  have hdismissed := coversDismissal_inherits.chain hs hd
  exact (hdismissed.trans (inherits_eraseTable t i s₁)).trans ho.sameFrame.inherits

theorem Sound.inherits_appendTable (hs : s.Sound) (tbl : Table) : Inherits s (s.appendTable tbl) := by
  intro r p ch hc
  have hid := hc.isIdentifying
  unfold Schema.isIdentifying at hid
  rw [(appendTable_objects tbl s).2] at hid
  exact ⟨(hs.isLive_appendTable tbl r).symm.trans hc.isLive, hid,
    (parent?_appendTable tbl s r).symm.trans hc.parent,
    (child?_appendTable tbl s r).symm.trans hc.child⟩

theorem sameFrame_of_inserts {i : Nat} {col : Column} (h : Inserts t i col s s') : SameFrame s s' :=
  (sameFrame_placeColumn t i col s).trans (sameFrame_of_grow h.worksOff)

theorem sameFrame_of_places {c : ColumnId} {k : Nat} (h : Places c k s s') : SameFrame s s' := by
  cases h with
  | joins _ hw => exact (reranks_changeRank ..).sameFrame.trans (sameFrame_of_grow hw)
  | moves _ _ =>
      split
      · exact ((reranks_changeRank ..).trans (reranks_normalizeKey ..)).sameFrame
      · exact (reranks_changeRank ..).sameFrame
  | stays _ => exact .refl s

theorem sameFrame_of_maps {pk fk : ColumnId} (h : Maps r pk fk s s') : SameFrame s s' := by
  obtain ⟨s₁, hw, hs'⟩ := h.worksOff
  have hf := (sameFrame_appendMapping ..).trans (sameFrame_of_grow hw)
  rcases hs' with rfl | ⟨rfl, -⟩
  · exact hf.trans (reranks_syncMappingOrder r s₁).sameFrame
  · exact hf

theorem Moves.inherits (h : Moves s s') : Inherits s s' := by
  obtain ⟨s₁, h₁, rfl | ⟨t, rfl⟩⟩ := h
  · exact h₁.inherits
  · exact h₁.inherits.trans (reranks_normalizeKey t none s₁).sameFrame.inherits

/-! ## Switches and catching up -/

theorem inherits_changeTable {f : Table → Table} (t : TableId) (s : Schema)
    (h : SameShape s (s.changeTable t f)) : Inherits s (s.changeTable t f) :=
  h.inherits fun _ => rfl

theorem inherits_setMagic (t : TableId) (on : Bool) (s : Schema) : Inherits s (s.setMagic t on) :=
  inherits_changeTable t s (sameShape_setMagic t on s)

theorem inherits_suspended (t : TableId) (s : Schema) : Inherits s (s.suspended t) := by
  unfold suspended
  split
  · exact .refl s
  · exact inherits_changeTable t s (sameShape_setSecondaryChange t true s)

theorem inherits_settled (t : TableId) (s : Schema) : Inherits s (s.settled t) :=
  (inherits_changeTable t s (sameShape_setSecondaryChange t false s)).trans
    (SameObjects.release t _).sameFrame.inherits

theorem Halts.inherits (h : Halts t s s') : Inherits s s' :=
  (inherits_settled t s).trans h.frame.inherits

theorem Exits.inherits (h : Exits t s s') (hs : s.Sound) : Inherits s s' :=
  (inherits_settled t s).trans (h.sameFrame hs).inherits

theorem Switches.inherits (h : Switches s s') : Inherits s s' := by
  cases h with
  | untouched h => exact h.inherits
  | told h => exact h.sameFrame.inherits
  | suspended t => exact inherits_suspended t s
  | magic t on => exact inherits_setMagic t on s

theorem Closes.inherits (h : Closes s s') (hs : s.Sound) : Inherits s s' := by
  cases h with
  | switches h => exact h.inherits
  | exits h => exact h.inherits hs
  | halts h => exact h.inherits

/-! ## Edits that add a link -/

theorem AmidEvents.acyclic {R : Schema → Schema → Prop} (h : AmidEvents R s s') (hs : s.Sound)
    (ha : s.Acyclic) (hR : ∀ s₁ s₂, s₁.Sound → s₁.Acyclic → R s₁ s₂ → s₂.Acyclic) : s'.Acyclic := by
  obtain ⟨s₁, s₂, h₁, h, h₂⟩ := h
  exact (hR s₁ s₂ (hs.of_sameObjects h₁) (ha.inherits h₁.sameFrame.inherits) h).inherits
    h₂.sameFrame.inherits

/-- A change of one relationship keeps a schema acyclic if the check passes whenever the
relationship is a link afterwards. -/
theorem AgreeBut.acyclic (h : AgreeBut r s s') (ha : s.Acyclic) (hs : s.Sound)
    (hcheck : ∀ p ch, s'.Carries r p ch → s.closesCycle r p ch = false) : s'.Acyclic := by
  by_cases hlink : ∃ p ch, s'.Carries r p ch
  · obtain ⟨p, ch, hc⟩ := hlink
    refine ha.link hs (hcheck p ch hc) fun a b hf => ?_
    obtain ⟨r', hc'⟩ := hf
    by_cases hne : r' = r
    · subst hne
      exact .inr ⟨Option.some.inj (hc'.parent.symm.trans hc.parent),
        Option.some.inj (hc'.child.symm.trans hc.child)⟩
    · exact .inl ⟨r', hne, h.carries hne hc'⟩
  · refine ha.inherits fun r' a b hc => h.carries ?_ hc
    rintro rfl
    exact hlink ⟨a, b, hc⟩

/-- The check of both ends, as it is made by the edits that add a link. -/
theorem closesCycle_of_ends (hid : s.isIdentifying r = true) (hp : s.parent? r = some p)
    (hch : s.child? r = some ch)
    (h : (s.isIdentifying r && s.endsCloseCycle r (s.parent? r) (s.child? r)) = false) :
    s.closesCycle r p ch = false := by
  rw [hid, hp, hch, Bool.true_and] at h
  exact h

theorem Acyclic.registerExported (ha : s.Acyclic) (hs : s.Sound) (hp : s.parent? r = some t)
    (h : (s.isIdentifying r && s.endsCloseCycle r (some t) (s.child? r)) = false) :
    (s.registerExported t r).Acyclic := by
  have hreg := reregisters_registerExported t r s
  refine (agreeBut_registerExported (hs.parent_stored r t hp) r).acyclic ha hs fun p ch hc => ?_
  refine closesCycle_of_ends ((hreg.isIdentifying r).symm.trans hc.isIdentifying)
    ((hreg.parent? r).symm.trans hc.parent) ((hreg.child? r).symm.trans hc.child) ?_
  rw [hp]
  exact h

theorem Acyclic.registerImported (ha : s.Acyclic) (hs : s.Sound) (hch : s.child? r = some t)
    (h : (s.isIdentifying r && s.endsCloseCycle r (s.parent? r) (some t)) = false) :
    (s.registerImported t r).Acyclic := by
  have hreg := reregisters_registerImported t r s
  refine (agreeBut_registerImported (hs.child_stored r t hch) r).acyclic ha hs fun p ch hc => ?_
  refine closesCycle_of_ends ((hreg.isIdentifying r).symm.trans hc.isIdentifying)
    ((hreg.parent? r).symm.trans hc.parent) ((hreg.child? r).symm.trans hc.child) ?_
  rw [hch]
  exact h

theorem Acyclic.connected (ha : s.Acyclic) (hs : s.Sound) (h : Connected r p ch s s')
    (hcycle : (s.isIdentifying r && s.closesCycle r p ch) = false) : s'.Acyclic := by
  refine h.agree.acyclic ha hs fun p' ch' hc => ?_
  obtain rfl := Option.some.inj (h.parent.symm.trans hc.parent)
  obtain rfl := Option.some.inj (h.child.symm.trans hc.child)
  rw [(h.isIdentifying r).symm.trans hc.isIdentifying, Bool.true_and] at hcycle
  exact hcycle

theorem Acyclic.wires {auto : Bool} (ha : s.Acyclic) (hs : s.Sound) (h : Wires r p ch auto s s')
    (hcycle : (s.isIdentifying r && s.closesCycle r p ch) = false) : s'.Acyclic := by
  obtain ⟨s₁, hc, hw⟩ := h.connected
  exact (ha.connected hs hc hcycle).inherits (sameFrame_of_grow hw).inherits

/-- The schema in which an attached relationship is connected and mapped is acyclic. -/
theorem Acyclic.wired {auto : Bool} (ha : s.Acyclic) (hs : s.Sound) (hatt : Attachable r p ch s)
    (h : Wires r p ch auto (s.suspended ch) (s.wired r p ch auto)) :
    (s.wired r p ch auto).Acyclic :=
  (ha.inherits (inherits_suspended ch s)).wires (hs.of_sameShape (sameShape_suspended ch s)) h
    (hatt.suspended hs ch).cycle

theorem Acyclic.attaches {auto : Bool} (ha : s.Acyclic) (hs : s.Sound) (hatt : Attachable r p ch s)
    (h : Attaches r p ch auto s s') : s'.Acyclic := by
  have hwired := ha.wired hs hatt h.wires
  rcases h.settles with ⟨-, rfl⟩ | ⟨-, hexits⟩
  · exact hwired
  · exact hwired.inherits (hexits.inherits h.wires.sound)

/-- Setting the identifying flag keeps a schema acyclic if the check passes for a new link. -/
theorem Acyclic.markIdentifying {new : Bool} (ha : s.Acyclic) (hs : s.Sound) (r : RelationshipId)
    (hcycle : (new && !s.isIdentifying r && s.endsCloseCycle r (s.parent? r) (s.child? r)) = false) :
    (s.markIdentifying r (s.isIdentifying r) new).Acyclic := by
  have hshape := sameShape_markIdentifying r (s.isIdentifying r) new s
  cases hold : s.isIdentifying r && s.isLive r with
  | true =>
      -- the relationship is a link already
      rw [Bool.and_eq_true] at hold
      refine ha.inherits fun r' a b hc => ?_
      refine ⟨(hshape.isLive r').symm.trans hc.isLive, ?_, (hshape.parent? r').symm.trans hc.parent,
        (hshape.child? r').symm.trans hc.child⟩
      have hid := hc.isIdentifying
      rw [isIdentifying_markIdentifying] at hid
      split at hid
      · rename_i heq
        exact heq ▸ hold.1
      · exact hid
  | false =>
      -- a new link, for which the check for circles was made
      refine (replaces_changeRelationship (markIdentifying_objects r _ new s)).agreeBut.acyclic ha hs
        fun p ch hc => ?_
      have hid := hc.isIdentifying
      rw [isIdentifying_markIdentifying, if_pos rfl, Bool.and_eq_true] at hid
      have hnot : s.isIdentifying r = false := by
        rw [(hshape.isLive r).symm.trans hc.isLive, Bool.and_true] at hold
        exact hold
      rw [hid.2, hnot, (hshape.parent? r).symm.trans hc.parent,
        (hshape.child? r).symm.trans hc.child] at hcycle
      exact hcycle

theorem Acyclic.marks {new : Bool} (ha : s.Acyclic) (hs : s.Sound) (h : Marks r new s s')
    (hcycle : (new && !s.isIdentifying r && s.endsCloseCycle r (s.parent? r) (s.child? r)) = false) :
    s'.Acyclic := by
  have hmark := ha.markIdentifying hs r hcycle
  cases h with
  | plain _ => exact hmark
  | tightens hnew hold _ hw =>
      rw [hold, hnew] at hmark
      exact hmark.inherits (sameFrame_of_grow hw).inherits
  | loosens hnew hold _ hw =>
      rw [hold, hnew] at hmark
      have hs₁ := hs.of_sameShape (sameShape_markIdentifying r true false s)
      exact hmark.inherits (hs₁.prune hw).2.frame.inherits

end Schema

namespace Op

open Schema

variable {s s' : Schema} {op : Op}

/-- What an operation does keeps a schema acyclic. -/
theorem Does.acyclic (h : op.Does s s') (hs : s.Sound) (ha : s.Acyclic) : s'.Acyclic := by
  cases op
  case addTable tbl =>
    obtain rfl := h
    exact ha.inherits (hs.inherits_appendTable tbl)
  case removeTable t =>
    exact ha.inherits (AmidEvents.inherits h hs fun _ _ hs₁ h => h.inherits hs₁)
  case addColumn t col =>
    obtain ⟨i, h⟩ := h
    exact ha.inherits (h.inherits hs fun _ _ _ h => (sameFrame_of_inserts h).inherits)
  case insertColumn t i col =>
    exact ha.inherits (AmidEvents.inherits h hs fun _ _ _ h => (sameFrame_of_inserts h).inherits)
  case removeColumn c =>
    exact ha.inherits (h.2.2.inherits hs fun _ _ hs₁ h => (hs₁.prune h).2.frame.inherits)
  case moveColumn c i => exact ha.inherits (Moves.inherits h)
  case setPrimaryKeySeq c rank =>
    cases rank with
    | none => exact ha.inherits (h.2.inherits hs fun _ _ hs₁ h => (hs₁.prune h).2.frame.inherits)
    | some k => exact ha.inherits (h.2.inherits hs fun _ _ _ h => (sameFrame_of_places h).inherits)
  case normalizePrimaryKey t =>
    obtain rfl := h
    exact ha.inherits (reranks_normalizeKey t none s).sameFrame.inherits
  case createRelationship rel =>
    obtain ⟨-, -, rfl⟩ := h
    have hrep := replaces_storeRelationship { rel with mappings := [] } s
    exact ha.inherits (hrep.inherits (hrep.not_isLive hs.next_notMem.1))
  case setParent r t =>
    obtain ⟨hreg, -, -, rfl⟩ := h
    exact ha.inherits (inherits_changeRelationship hs (SameObjects.raise _ _) hreg)
  case setChild r t =>
    obtain ⟨hreg, -, -, rfl⟩ := h
    exact ha.inherits (inherits_changeRelationship hs (SameObjects.raise _ _) hreg)
  case addExportedKey t r =>
    obtain ⟨hp, ⟨-, rfl⟩ | ⟨-, hcycle, rfl⟩⟩ := h
    · exact ha
    · exact ha.registerExported hs hp hcycle
  case addImportedKey t r =>
    obtain ⟨hch, ⟨-, rfl⟩ | ⟨-, hcycle, rfl⟩⟩ := h
    · exact ha
    · exact ha.registerImported hs hch hcycle
  case removeExportedKey t r =>
    obtain ⟨-, h⟩ | ⟨-, rfl⟩ := h
    · exact ha.inherits (h.inherits hs fun _ _ hs₁ h => coversDismissal_inherits.detaches hs₁ h)
    · exact ha.inherits (hs.deregisters_exported r).inherits
  case removeImportedKey t r =>
    obtain ⟨-, h⟩ | ⟨-, rfl⟩ := h
    · exact ha.inherits (h.inherits hs fun _ _ hs₁ h => coversDismissal_inherits.detaches hs₁ h)
    · exact ha.inherits (hs.deregisters_imported r).inherits
  case removeRelationship r =>
    obtain ⟨-, h⟩ | ⟨-, rfl⟩ := h
    · exact ha.inherits (h.inherits hs fun _ _ hs₁ h => coversDismissal_inherits.detaches hs₁ h)
    · exact ha.inherits (coversDismissal_inherits.discard hs r)
  case addMapping r pk fk =>
    exact ha.inherits (AmidEvents.inherits h hs fun _ _ _ h => (sameFrame_of_maps h).inherits)
  case removeMapping r pk => exact ha.inherits (Unmaps.sameFrame h).inherits
  case mapPrimaryKeyColumn r pk =>
    obtain ⟨-, -, -, -, h⟩ := h
    exact ha.inherits (h.inherits hs fun _ _ _ h => (sameFrame_of_grow h).inherits)
  case attachRelationship r p ch auto =>
    exact h.attaches.acyclic hs ha fun _ _ hs₁ ha₁ h => ha₁.attaches hs₁ h.1 h.2
  case setIdentifying r new =>
    obtain ⟨hcycle, s₁, s₂, h₁, h, h₂⟩ := h
    obtain ⟨held, raised, published, origins, rfl⟩ := h₁.exists_eq
    exact ((ha.inherits h₁.sameFrame.inherits).marks (hs.of_sameObjects h₁) h hcycle).inherits
      h₂.sameFrame.inherits
  case setSecondaryChangeMode t on => exact ha.inherits (h.closes.inherits hs)
  case setMagicEnabled t on =>
    obtain rfl := h
    exact ha.inherits (inherits_setMagic t on s)
  all_goals exact ha.inherits (SameSkeleton.inherits h)

/-- An operation that stops halfway leaves an acyclic schema. -/
theorem Halts.acyclic (h : op.Halts s s') (hs : s.Sound) (ha : s.Acyclic) : s'.Acyclic := by
  obtain ⟨r, p, ch, auto, h⟩ | ⟨t, h⟩ := h.cases
  · exact h.acyclic hs ha fun _ _ hs₁ ha₁ h =>
      (ha₁.wired hs₁ h.1 h.2.wires).inherits h.2.halts.inherits
  · exact ha.inherits h.inherits

/-- Whatever an operation ends in, it leaves an acyclic schema. -/
theorem acyclic_perform (hs : s.Sound) (ha : s.Acyclic) (op : Op) : (op.perform s).2.Acyclic :=
  perform_preserves hs op (fun _ h => h.acyclic hs ha) (fun _ h => h.acyclic hs ha)
    fun _ h => ha.inherits h.inherits

end Op

/-- Every schema that can be reached is acyclic. -/
theorem Schema.Reachable.acyclic {s : Schema} (h : s.Reachable) : s.Acyclic := by
  obtain ⟨config, moves, rfl⟩ := h
  refine (Moment.run_preserves (P := fun s => s.Sound ∧ s.Acyclic) (fun s op h => ?_)
    (fun s scope h => ?_) (fun s opened h => ?_)
    ⟨Schema.sound_ofConfig config, Schema.acyclic_ofConfig config⟩ moves).2
  · exact ⟨Op.sound_perform h.1 op, Op.acyclic_perform h.1 h.2 op⟩
  · exact ⟨Edit.sound_enter h.1 scope, h.2.inherits (Edit.switches_enter s scope).inherits⟩
  · exact ⟨Edit.sound_leave h.1 opened, h.2.inherits ((Edit.closes_leave h.1 opened).inherits h.1)⟩

/-! ## The graph of live identifying relationships -/

/-- A link, read off the stored relationship that it is. -/
theorem Schema.feeds_iff {s : Schema} {p ch : TableId} :
    s.Feeds p ch ↔ ∃ r rel, s.relationships.get? r = some rel ∧ s.isLive r = true ∧
      rel.identifying = true ∧ rel.parent = some p ∧ rel.child = some ch := by
  constructor
  · rintro ⟨r, hc⟩
    obtain ⟨rel, hrel, hparent⟩ := Option.bind_eq_some_iff.mp hc.parent
    have hid := hc.isIdentifying
    have hchild := hc.child
    simp only [isIdentifying, child?, hrel, Option.any_some, Option.bind_some] at hid hchild
    exact ⟨r, rel, hrel, hc.isLive, hid, hparent, hchild⟩
  · rintro ⟨r, rel, hrel, hl, hid, hparent, hchild⟩
    exact ⟨r, hl, by simpa [isIdentifying, hrel] using hid, by simpa [parent?, hrel] using hparent,
      by simpa [child?, hrel] using hchild⟩

/-- In a schema that can be reached, the graph with an edge from parent to child for every live
identifying relationship has no cycle, and none of these relationships goes from a table to
itself. -/
theorem Schema.Reachable.identifying_acyclic {s : Schema} (h : s.Reachable) :
    (∀ t, ¬ Relation.TransGen (fun p ch => ∃ r rel, s.relationships.get? r = some rel ∧
      s.isLive r = true ∧ rel.identifying = true ∧ rel.parent = some p ∧ rel.child = some ch) t t) ∧
    ∀ r rel, s.relationships.get? r = some rel → s.isLive r = true → rel.identifying = true →
      rel.parent ≠ rel.child := by
  have hwalk : ∀ t, ¬ Relation.TransGen (fun p ch => ∃ r rel, s.relationships.get? r = some rel ∧
      s.isLive r = true ∧ rel.identifying = true ∧ rel.parent = some p ∧ rel.child = some ch) t t := by
    intro t hcycle
    refine h.acyclic t (Relation.TransGen.mono ?_ t t hcycle)
    intro p ch hedge
    exact feeds_iff.mpr hedge
  refine ⟨hwalk, ?_⟩
  intro r rel hrel hl hid heq
  -- a live relationship has both ends, so one that starts where it ends is a cycle of one edge
  obtain ⟨p, ch, hp, hch, -⟩ := isLive_iff.mp hl
  simp only [parent?, child?, hrel, Option.bind_some] at hp hch
  refine hwalk p (.single ⟨r, rel, hrel, hl, hid, hp, ?_⟩)
  rw [← heq]
  exact hp

/-- Two identifying relationships that lead in opposite directions, both registered with their
parents only, then one of them with its child too. -/
def opposingMoves : List Move :=
  [.edit (.addTable { name := "a" }),
    .edit (.addTable { name := "b" }),
    .edit (.createRelationship
      { name := "ab", parent := some ⟨1⟩, child := some ⟨2⟩, identifying := true }),
    .edit (.createRelationship
      { name := "ba", parent := some ⟨2⟩, child := some ⟨1⟩, identifying := true }),
    .edit (.addExportedKey ⟨1⟩ ⟨1⟩),
    .edit (.addExportedKey ⟨2⟩ ⟨2⟩),
    .edit (.addImportedKey ⟨2⟩ ⟨1⟩)]

/-- One of the two is an edge then, and the registration that would make the other one an edge is
refused. -/
theorem Schema.identifying_acyclic_opposing : ∃ s : Schema, s.Reachable ∧ s.isLive ⟨1⟩ = true ∧
    s.isIdentifying ⟨1⟩ = true ∧
    (Op.addImportedKey ⟨1⟩ ⟨2⟩).perform s = (.error (.identifyingCycle ⟨2⟩), s) ∧
    (∀ t, ¬ Relation.TransGen (fun p ch => ∃ r rel, s.relationships.get? r = some rel ∧
      s.isLive r = true ∧ rel.identifying = true ∧ rel.parent = some p ∧ rel.child = some ch) t t) ∧
    ∀ r rel, s.relationships.get? r = some rel → s.isLive r = true → rel.identifying = true →
      rel.parent ≠ rel.child := by
  have hreach : Schema.Reachable ((Moment.start {}).run opposingMoves).schema :=
    ⟨{}, opposingMoves, rfl⟩
  refine ⟨_, hreach, by decide +kernel, by decide +kernel, by decide +kernel, ?_⟩
  exact hreach.identifying_acyclic

end KeyedSchema
