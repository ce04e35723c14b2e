import KeyedSchema.Proofs.Edits.CatchUp

/-!
# Attach — connecting a relationship to its tables

Attaching sets both ends of a relationship, registers it on both sides and maps the parent's key,
with the child in secondary-change mode meanwhile. The check for circles is made once before and
again at each registration; since it ignores the relationship itself, it comes out the same.
-/

namespace KeyedSchema

namespace Schema

variable {s s' s'' : Schema} {t p ch : TableId} {c : ColumnId} {r r' : RelationshipId}

/-! ## Schemas that agree on all relationships but one -/

/-- Whether two schemas agree on every relationship but `r`, and on where it is registered. -/
structure AgreeBut (r : RelationshipId) (s s' : Schema) : Prop where
  size : s'.tables.size = s.tables.size
  exportsOf : ∀ t, (s'.exportsOf t).filter (fun r' => decide (r' ≠ r)) =
    (s.exportsOf t).filter fun r' => decide (r' ≠ r)
  importsOf : ∀ t, (s'.importsOf t).filter (fun r' => decide (r' ≠ r)) =
    (s.importsOf t).filter fun r' => decide (r' ≠ r)
  relationship : ∀ r', r' ≠ r → s'.relationships.get? r' = s.relationships.get? r'

namespace AgreeBut

@[refl] theorem refl (r : RelationshipId) (s : Schema) : AgreeBut r s s :=
  ⟨rfl, fun _ => rfl, fun _ => rfl, fun _ _ => rfl⟩

theorem trans (h : AgreeBut r s s') (h' : AgreeBut r s' s'') : AgreeBut r s s'' :=
  ⟨h'.size.trans h.size, fun t => (h'.exportsOf t).trans (h.exportsOf t),
    fun t => (h'.importsOf t).trans (h.importsOf t),
    fun r' hr' => (h'.relationship r' hr').trans (h.relationship r' hr')⟩

theorem mem_exportsOf (h : AgreeBut r s s') (hr' : r' ≠ r) :
    r' ∈ s'.exportsOf t ↔ r' ∈ s.exportsOf t := by
  have := congrArg (r' ∈ ·) (h.exportsOf t)
  simpa [hr'] using this

theorem mem_importsOf (h : AgreeBut r s s') (hr' : r' ≠ r) :
    r' ∈ s'.importsOf t ↔ r' ∈ s.importsOf t := by
  have := congrArg (r' ∈ ·) (h.importsOf t)
  simpa [hr'] using this

theorem isLive (h : AgreeBut r s s') (hr' : r' ≠ r) : s'.isLive r' = s.isLive r' := by
  rw [Bool.eq_iff_iff]
  simp only [isLive_iff, parent?, child?, h.relationship r' hr', h.mem_exportsOf hr',
    h.mem_importsOf hr']

theorem identifyingChildren (h : AgreeBut r s s') (t : TableId) :
    s'.identifyingChildren r t = s.identifyingChildren r t := by
  -- the relationship itself is passed over
  have hskip : ∀ s : Schema, s.identifyingChildren r t =
      ((s.exportsOf t).filter fun r' => decide (r' ≠ r)).filterMap fun r' =>
        if r' ≠ r ∧ s.isLive r' then
          (s.relationships.get? r').bind fun rel => if rel.identifying then rel.child else none
        else none := by
    intro s
    unfold Schema.identifyingChildren
    rw [List.filterMap_filter]
    congr 1
    funext r'
    by_cases hr' : r' = r <;> simp [hr']
  rw [hskip s', hskip s, h.exportsOf]
  refine List.filterMap_congr fun r' hmem => ?_
  have hr' : r' ≠ r := by simpa using (List.mem_filter.mp hmem).2
  rw [h.isLive hr', h.relationship r' hr']

theorem closesCycle (h : AgreeBut r s s') (p ch : TableId) :
    s'.closesCycle r p ch = s.closesCycle r p ch := by
  unfold Schema.closesCycle Schema.identifyingReach
  rw [funext h.identifyingChildren, h.size]

end AgreeBut

theorem Replaces.agreeBut {rel : Option Relationship} (h : Replaces r rel s s') : AgreeBut r s s' :=
  ⟨by rw [h.tables], fun t => by rw [h.exportsOf], fun t => by rw [h.importsOf],
    fun r' hne => by rw [h.get?, if_neg hne]⟩

theorem size_tables_of_keys (h : s'.tables.keys = s.tables.keys) :
    s'.tables.size = s.tables.size := by
  rw [Roster.size_eq_length_keys, h, ← Roster.size_eq_length_keys]

theorem agreeBut_registerExported (ht : s.tables.contains t = true) (r : RelationshipId) :
    AgreeBut r s (s.registerExported t r) := by
  have hreg := reregisters_registerExported t r s
  refine ⟨size_tables_of_keys hreg.tableKeys, fun t' => ?_, fun t' => ?_, fun r' _ => ?_⟩
  · rw [exportsOf_registerExported ht]
    split
    · rename_i h
      simp [h]
    · rfl
  · rw [importsOf_registerExported]
  · rw [hreg.relationships]

theorem agreeBut_registerImported (ht : s.tables.contains t = true) (r : RelationshipId) :
    AgreeBut r s (s.registerImported t r) := by
  have hreg := reregisters_registerImported t r s
  refine ⟨size_tables_of_keys hreg.tableKeys, fun t' => ?_, fun t' => ?_, fun r' _ => ?_⟩
  · rw [exportsOf_registerImported]
  · rw [importsOf_registerImported ht]
    split
    · rename_i h
      simp [h]
    · rfl
  · rw [hreg.relationships]

/-! ## Setting the ends -/

/-- Whether `rel` is what a relationship has become that is neither mapped nor registered, with
nothing else changed. -/
structure Rewritten (r : RelationshipId) (rel : Relationship) (s s' : Schema) : Prop where
  sound : s'.Sound
  config : s'.config = s.config
  agree : AgreeBut r s s'
  tables : s'.tables = s.tables
  columns : s'.columns = s.columns
  relationship : s'.relationships.get? r = some rel
  mappings : rel.mappings = []

theorem Rewritten.change {rel : Relationship} (h : Rewritten r rel s s')
    (hreg : s.isRegistered r = false) {f : Relationship → Relationship}
    (ho : SameObjects (s'.changeRelationship r f) s'') (hm : (f rel).mappings = [])
    (hp : ∀ t, (f rel).parent = some t → s.tables.contains t = true)
    (hch : ∀ t, (f rel).child = some t → s.tables.contains t = true) :
    Rewritten r (f rel) s s'' := by
  have hrel : ∀ rel', s'.relationships.get? r = some rel' → rel' = rel := by
    intro rel' h'
    rw [h.relationship] at h'
    exact (Option.some.inj h').symm
  have hreg' : s'.isRegistered r = false := by
    unfold isRegistered at hreg ⊢
    rwa [h.tables]
  refine ⟨?_, ho.config.trans h.config, h.agree.trans (replaces_changeRelationship ho).agreeBut,
    ho.tables.trans h.tables, ho.columns.trans h.columns, ?_, hm⟩
  · refine h.sound.changeRelationship ho hreg' (fun rel' h' => ?_) (fun rel' t h' ht => ?_)
      fun rel' t h' ht => ?_
    · rw [hrel rel' h', hm]
    · rw [h.tables]
      exact hp t (hrel rel' h' ▸ ht)
    · rw [h.tables]
      exact hch t (hrel rel' h' ▸ ht)
  · rw [get?_changeRelationship ho, if_pos rfl, h.relationship]
    rfl

/-- The parent is set, unless it is set already. -/
theorem Rewritten.setParent {rel : Relationship} (h : Rewritten r rel s s')
    (hreg : s.isRegistered r = false) (hp : s.tables.contains p = true) :
    Rewritten r { rel with parent := some p } s
      (if rel.parent ≠ some p then s'.changeParent r rel.parent (some p) else s') := by
  split
  · refine h.change (f := fun rel => { rel with parent := some p }) hreg (SameObjects.raise _ _)
      h.mappings (fun t ht => ?_) fun t ht => ?_
    · obtain rfl := Option.some.inj ht
      exact hp
    · rw [← h.tables]
      exact h.sound.child_stored r t (by simpa [Schema.child?, h.relationship] using ht)
  · rename_i hset
    rw [← not_not.mp hset]
    exact h

/-- The child is set, unless it is set already. -/
theorem Rewritten.setChild {rel : Relationship} (h : Rewritten r rel s s')
    (hreg : s.isRegistered r = false) (hch : s.tables.contains ch = true) :
    Rewritten r { rel with child := some ch } s
      (if rel.child ≠ some ch then s'.changeChild r rel.child (some ch) else s') := by
  split
  · refine h.change (f := fun rel => { rel with child := some ch }) hreg (SameObjects.raise _ _)
      h.mappings (fun t ht => ?_) fun t ht => ?_
    · rw [← h.tables]
      exact h.sound.parent_stored r t (by simpa [Schema.parent?, h.relationship] using ht)
    · obtain rfl := Option.some.inj ht
      exact hch
  · rename_i hset
    rw [← not_not.mp hset]
    exact h

/-! ## A relationship that has become live -/

/-- What connecting a relationship comes to: it is live between the two tables, without mappings,
and nothing else has changed. -/
structure Connected (r : RelationshipId) (p ch : TableId) (s s' : Schema) : Prop where
  sound : s'.Sound
  config : s'.config = s.config
  isLive : ∀ r', s'.isLive r' = (decide (r' = r) || s.isLive r')
  parent : s'.parent? r = some p
  child : s'.child? r = some ch
  parent? : ∀ r', r' ≠ r → s'.parent? r' = s.parent? r'
  child? : ∀ r', r' ≠ r → s'.child? r' = s.child? r'
  mappingsOf : ∀ r', s'.mappingsOf r' = s.mappingsOf r'
  isIdentifying : ∀ r', s'.isIdentifying r' = s.isIdentifying r'
  columns : s'.columns = s.columns
  columnsOf : ∀ t, s'.columnsOf t = s.columnsOf t
  switchesOf : ∀ t, s'.switchesOf t = s.switchesOf t
  tableKeys : s'.tables.keys = s.tables.keys
  agree : AgreeBut r s s'

/-- Registering a rewritten relationship with both of its ends connects it. -/
theorem Rewritten.connected {rel : Relationship} (h : Rewritten r rel s s')
    (hreg : s.isRegistered r = false) (hm : s.mappingsOf r = [])
    (hid : s.isIdentifying r = rel.identifying) (hp : rel.parent = some p)
    (hch : rel.child = some ch) :
    Connected r p ch s ((s'.registerExported p r).registerImported ch r) := by
  have hreg' : s'.isRegistered r = false := by
    unfold isRegistered at hreg ⊢
    rwa [h.tables]
  obtain ⟨hnoexp, hnoimp⟩ := notMem_of_not_isRegistered h.sound hreg'
  have hp' : s'.parent? r = some p := by simp [Schema.parent?, h.relationship, hp]
  have hch' : s'.child? r = some ch := by simp [Schema.child?, h.relationship, hch]
  have hpt := h.sound.parent_stored r p hp'
  -- registering leaves everything but registrations as it was
  have hr₁ := reregisters_registerExported p r s'
  have hr₂ := hr₁.trans (reregisters_registerImported ch r _)
  have hs₁ := h.sound.registerExported hp' (hnoexp p)
  have hch₁ : (s'.registerExported p r).child? r = some ch := (hr₁.child? r).trans hch'
  have hct := hs₁.child_stored r ch hch₁
  have himp₁ : r ∉ (s'.registerExported p r).importsOf ch := by
    rw [importsOf_registerExported]
    exact hnoimp ch
  have hs₂ := hs₁.registerImported hch₁ himp₁
  have hagree : AgreeBut r s ((s'.registerExported p r).registerImported ch r) :=
    (h.agree.trans (agreeBut_registerExported hpt r)).trans (agreeBut_registerImported hct r)
  have hparent : ((s'.registerExported p r).registerImported ch r).parent? r = some p :=
    (hr₂.parent? r).trans hp'
  have hchild : ((s'.registerExported p r).registerImported ch r).child? r = some ch :=
    (hr₂.child? r).trans hch'
  constructor
  case sound => exact hs₂
  case config => exact hr₂.config.trans h.config
  case isLive =>
    intro r'
    by_cases heq : r' = r
    · subst heq
      have hl : ((s'.registerExported p r').registerImported ch r').isLive r' = true := by
        refine isLive_iff.mpr ⟨p, ch, hparent, hchild, ?_, ?_⟩
        · rw [exportsOf_registerImported, exportsOf_registerExported hpt]
          simp
        · rw [importsOf_registerImported hct]
          simp
      simp [hl]
    · simp [heq, hagree.isLive heq]
  case parent => exact hparent
  case child => exact hchild
  case parent? =>
    intro r' hne
    unfold Schema.parent?
    rw [hagree.relationship r' hne]
  case child? =>
    intro r' hne
    unfold Schema.child?
    rw [hagree.relationship r' hne]
  case mappingsOf =>
    intro r'
    rw [hr₂.mappingsOf]
    by_cases heq : r' = r
    · rw [heq, hm]
      simp [Schema.mappingsOf, h.relationship, h.mappings]
    · unfold Schema.mappingsOf
      rw [h.agree.relationship r' heq]
  case isIdentifying =>
    intro r'
    rw [hr₂.isIdentifying]
    by_cases heq : r' = r
    · rw [heq, hid]
      simp [Schema.isIdentifying, h.relationship]
    · unfold Schema.isIdentifying
      rw [h.agree.relationship r' heq]
  case columns => exact hr₂.columns.trans h.columns
  case columnsOf =>
    intro t
    rw [hr₂.columnsOf]
    unfold Schema.columnsOf
    rw [h.tables]
  case switchesOf =>
    intro t
    rw [hr₂.switchesOf]
    unfold Schema.switchesOf
    rw [h.tables]
  case tableKeys => exact hr₂.tableKeys.trans (by rw [h.tables])
  case agree => exact hagree

/-- Whether a relationship is connected and, if wished, the key of its parent is mapped. -/
structure Wires (r : RelationshipId) (p ch : TableId) (auto : Bool) (s s' : Schema) : Prop where
  connected : ∃ s₁, Connected r p ch s s₁ ∧ WorksOff Grow.step
    (if auto then (s₁.primaryKey p).map (.map s.tables.size r) else []) s₁ s'

/-- What has to be checked before a relationship is attached. -/
structure Attachable (r : RelationshipId) (p ch : TableId) (s : Schema) : Prop where
  parent : s.tables.contains p = true
  child : s.tables.contains ch = true
  stored : s.relationships.contains r = true
  mappings : s.mappingsOf r = []
  registered : s.isRegistered r = false
  cycle : (s.isIdentifying r && s.closesCycle r p ch) = false

theorem Connected.ready (h : Connected r p ch s s') {task : Grow}
    (ht : task ∈ (s'.primaryKey p).map (Grow.map s.tables.size r)) : task.Ready s' := by
  obtain ⟨x, hx, rfl⟩ := List.mem_map.mp ht
  exact ⟨p, ch, h.parent, h.child, (h.sound.listed p x).mp (mem_primaryKey.mp hx).1⟩

theorem Connected.ready_wiring {auto : Bool} (h : Connected r p ch s s') :
    ∀ task ∈ if auto then (s'.primaryKey p).map (Grow.map s.tables.size r) else [],
      task.Ready s' := by
  intro task ht
  split at ht
  · exact h.ready ht
  · exact absurd ht List.not_mem_nil

theorem Wires.sound {auto : Bool} (h : Wires r p ch auto s s') : s'.Sound := by
  obtain ⟨s₁, hc, hw⟩ := h.connected
  exact (hc.sound.grow hc.ready_wiring hw).1

end Schema

namespace Edit

open Schema

variable {s s₁ : Schema} {p ch : TableId} {r : RelationshipId}

/-- Registering with the parent goes through if it is new and closes no circle. -/
theorem addExportedKey_ends (hs : s.Sound) (hp : s.parent? r = some p) (hr : r ∉ s.exportsOf p)
    (hcycle : (s.isIdentifying r && s.endsCloseCycle r (s.parent? r) (s.child? r)) = false) :
    (addExportedKey p r).Ends (fun _ s' => s' = s.registerExported p r) (fun _ _ => False) s := by
  obtain ⟨rel, hrel, hrelp⟩ := Option.bind_eq_some_iff.mp hp
  obtain ⟨tbl, htbl⟩ := (Roster.contains_iff _ _).mp (hs.parent_stored r p hp)
  have hexp : s.exportsOf p = tbl.exportedKeys := by simp [exportsOf, htbl]
  have hcycle' : (rel.identifying && s.endsCloseCycle r (some p) rel.child) = false := by
    simpa [isIdentifying, parent?, child?, hrel, hrelp] using hcycle
  unfold addExportedKey
  rw [hexp] at hr
  simp [ends_table_of htbl, ends_relationship_of hrel, hrelp, hr, ends_refuseCycle, hcycle']

theorem addImportedKey_ends (hs : s.Sound) (hch : s.child? r = some ch) (hr : r ∉ s.importsOf ch)
    (hcycle : (s.isIdentifying r && s.endsCloseCycle r (s.parent? r) (s.child? r)) = false) :
    (addImportedKey ch r).Ends (fun _ s' => s' = s.registerImported ch r) (fun _ _ => False) s := by
  obtain ⟨rel, hrel, hrelch⟩ := Option.bind_eq_some_iff.mp hch
  obtain ⟨tbl, htbl⟩ := (Roster.contains_iff _ _).mp (hs.child_stored r ch hch)
  have himp : s.importsOf ch = tbl.importedKeys := by simp [importsOf, htbl]
  have hcycle' : (rel.identifying && s.endsCloseCycle r rel.parent (some ch)) = false := by
    simpa [isIdentifying, parent?, child?, hrel, hrelch] using hcycle
  unfold addImportedKey
  rw [himp] at hr
  simp [ends_table_of htbl, ends_relationship_of hrel, hrelch, hr, ends_refuseCycle, hcycle']

/-- Once its ends are set, a relationship is registered with both of them. The check for circles
was made before, and it is not changed by what concerns the relationship itself. -/
theorem register_ends {rel : Relationship} (h : Attachable r p ch s) (hrw : Rewritten r rel s s₁)
    (hp : rel.parent = some p) (hch : rel.child = some ch)
    (hid : s.isIdentifying r = rel.identifying) :
    (addExportedKey p r >>= fun _ => addImportedKey ch r).Ends
      (fun _ s' => Connected r p ch s s') (fun _ _ => False) s₁ := by
  have hreg : s₁.isRegistered r = false := by
    have := h.registered
    unfold isRegistered at this ⊢
    rwa [hrw.tables]
  obtain ⟨hnoexp, hnoimp⟩ := notMem_of_not_isRegistered hrw.sound hreg
  have hparent : s₁.parent? r = some p := by simp [parent?, hrw.relationship, hp]
  have hchild : s₁.child? r = some ch := by simp [child?, hrw.relationship, hch]
  have hcycle₁ : (s₁.isIdentifying r && s₁.endsCloseCycle r (s₁.parent? r) (s₁.child? r)) = false := by
    have := h.cycle
    rw [hid] at this
    rw [hparent, hchild]
    simpa [isIdentifying, hrw.relationship, endsCloseCycle, hrw.agree.closesCycle] using this
  -- the same three facts after the registration with the parent
  have hreg₂ := reregisters_registerExported p r s₁
  have hs₂ := hrw.sound.registerExported hparent (hnoexp p)
  have himp₂ : r ∉ (s₁.registerExported p r).importsOf ch := by
    rw [importsOf_registerExported]
    exact hnoimp ch
  have hagree₂ := agreeBut_registerExported (r := r) (hrw.sound.parent_stored r p hparent)
  have hcycle₂ : ((s₁.registerExported p r).isIdentifying r &&
      (s₁.registerExported p r).endsCloseCycle r ((s₁.registerExported p r).parent? r)
        ((s₁.registerExported p r).child? r)) = false := by
    rw [hreg₂.isIdentifying, hreg₂.parent?, hreg₂.child?]
    unfold endsCloseCycle at hcycle₁ ⊢
    rw [funext fun p => funext (hagree₂.closesCycle p)]
    exact hcycle₁
  rw [ends_bind]
  refine (addExportedKey_ends hrw.sound hparent (hnoexp p) hcycle₁).imp ?_
  rintro _ _ rfl
  refine (addImportedKey_ends hs₂ ((hreg₂.child? r).trans hchild) himp₂ hcycle₂).imp ?_
  rintro _ _ rfl
  exact hrw.connected h.registered h.mappings hid hp hch

/-- The key of the parent is mapped, if wished, once the relationship is connected. -/
theorem mapParentKey_ends (hc : Connected r p ch s s₁) (auto : Bool) :
    (if auto = true then (discard (table p) >>= fun _ => get >>= fun s : Schema =>
      (s.primaryKey p).forM (mapIfMissing promote r)) else pure ()).Ends
      (fun _ s' => Wires r p ch auto s s') (fun _ _ => False) s₁ := by
  cases auto with
  | false => exact ⟨_, hc, .done _⟩
  | true =>
      obtain ⟨tbl, htbl⟩ := (Roster.contains_iff _ _).mp (hc.sound.parent_stored r p hc.parent)
      have hsize := size_tables_of_keys hc.tableKeys
      simp only [if_true, ends_bind, ends_discard, ends_table_of htbl, ends_get]
      refine (forM_mapIfMissing_worksOff (promotes_promote _) (fun _ => r) id
        hc.sound (.refl _) fun x hx => hc.ready ?_).imp fun _ s' hw => ⟨_, hc, ?_⟩
      · rw [hsize]
        exact List.mem_map.mpr ⟨x, hx, rfl⟩
      · rw [hsize] at hw
        exact hw

/-- Attaching goes through, once its checks have passed. -/
theorem attachSteps_ends (hs : s.Sound) (h : Attachable r p ch s) (auto : Bool) :
    (attachSteps r p ch auto).Ends (fun _ s' => Wires r p ch auto s s') (fun _ _ => False) s := by
  obtain ⟨rel, hrel⟩ := (Roster.contains_iff _ _).mp h.stored
  have hm : rel.mappings = [] := by simpa [mappingsOf, hrel] using h.mappings
  have hid : s.isIdentifying r = rel.identifying := by simp [isIdentifying, hrel]
  have h₀ : Rewritten r rel s s := ⟨hs, rfl, .refl r s, rfl, rfl, hrel, hm⟩
  have hset := (h₀.setParent h.registered h.parent).setChild h.registered h.child
  have hsteps := (register_ends h hset rfl rfl hid).imp fun _ _ hc => mapParentKey_ends hc auto
  unfold attachSteps
  simp only [ends_bind, ends_relationship_of hrel, ends_changeIf] at hsteps ⊢
  exact hsteps

end Edit

namespace Schema

variable {s s' : Schema} {p ch : TableId} {r : RelationshipId} {auto : Bool}

/-! ## Attaching -/

/-- The schema in which a relationship has been connected and mapped, with its child in
secondary-change mode. -/
def wired (r : RelationshipId) (p ch : TableId) (auto : Bool) (s : Schema) : Schema :=
  ((Edit.attachSteps r p ch auto).perform (s.suspended ch)).2

/-- Whether attaching goes through. A child that was in the mode before stays in it. -/
structure Attaches (r : RelationshipId) (p ch : TableId) (auto : Bool) (s s' : Schema) : Prop where
  wires : Wires r p ch auto (s.suspended ch) (s.wired r p ch auto)
  settles : (s.isHolding ch = true ∧ s' = s.wired r p ch auto) ∨
    (s.isHolding ch = false ∧ Exits ch (s.wired r p ch auto) s')

/-- Whether catching up after attaching loses a key column of the child. -/
def AttachFails (r : RelationshipId) (p ch : TableId) (auto : Bool) (s : Schema) : Prop :=
  s.isHolding ch = false ∧ ExitFails ch (s.wired r p ch auto)

theorem Attaches.sound (h : Attaches r p ch auto s s') : s'.Sound := by
  rcases h.settles with ⟨-, rfl⟩ | ⟨-, hexits⟩
  · exact h.wires.sound
  · exact hexits.sound h.wires.sound

/-- Whether attaching stops halfway, when the child is caught up with. -/
structure AttachHalts (r : RelationshipId) (p ch : TableId) (auto : Bool) (s s' : Schema) :
    Prop where
  outside : s.isHolding ch = false
  wires : Wires r p ch auto (s.suspended ch) (s.wired r p ch auto)
  halts : Halts ch (s.wired r p ch auto) s'

theorem AttachHalts.fails (h : AttachHalts r p ch auto s s') : AttachFails r p ch auto s :=
  ⟨h.outside, h.halts.fails⟩

/-- Attaching goes through or fails, but not both. -/
theorem Attaches.not_attachFails (h : Attaches r p ch auto s s') : ¬ AttachFails r p ch auto s := by
  rintro ⟨hnot, hfails⟩
  rcases h.settles with ⟨hholds, -⟩ | ⟨-, hexits⟩
  · rw [hnot] at hholds
    exact Bool.noConfusion hholds
  · exact hexits.not_exitFails h.wires.sound hfails

/-- The schema in which a relationship is about to be attached. -/
def attachStart (r : RelationshipId) (s : Schema) : Schema :=
  let name := (s.relationships.get? r).elim "" Relationship.name
  s.signal (.compoundEditStarted s!"attach relationship {name}")

theorem sameObjects_attachStart (r : RelationshipId) (s : Schema) : SameObjects s (s.attachStart r) :=
  SameObjects.signal _ s

theorem Attachable.attachStart (h : Attachable r p ch s) : Attachable r p ch (s.attachStart r) :=
  ⟨h.parent, h.child, h.stored, h.mappings, h.registered, h.cycle⟩

theorem agreeBut_suspended (r : RelationshipId) (ch : TableId) (s : Schema) :
    AgreeBut r s (s.suspended ch) := by
  have h := sameShape_suspended ch s
  have hrel : (s.suspended ch).relationships = s.relationships := by
    unfold suspended
    split <;> rfl
  exact ⟨size_tables_of_keys h.tableKeys, fun t => by rw [h.exportsOf], fun t => by rw [h.importsOf],
    fun r' _ => by rw [hrel]⟩

theorem Attachable.suspended (h : Attachable r p ch s) (hs : s.Sound) (t : TableId) :
    Attachable r p ch (s.suspended t) := by
  have hshape := sameShape_suspended t s
  have hrel : (s.suspended t).relationships = s.relationships := by
    unfold Schema.suspended
    split <;> rfl
  constructor
  case parent => exact (hshape.contains_table p).trans h.parent
  case child => exact (hshape.contains_table ch).trans h.child
  case stored => exact (hshape.contains_relationship r).trans h.stored
  case mappings =>
    have := h.mappings
    unfold mappingsOf at this ⊢
    rwa [hrel]
  case registered =>
    have := h.registered
    rw [Bool.eq_false_iff, ne_eq, isRegistered_iff hs.tables_nodup] at this
    rw [Bool.eq_false_iff, ne_eq, isRegistered_iff (hs.of_sameShape hshape).tables_nodup]
    simpa only [hshape.exportsOf, hshape.importsOf] using this
  case cycle =>
    have := h.cycle
    unfold isIdentifying at this ⊢
    rwa [hrel, (agreeBut_suspended r t s).closesCycle]

end Schema

namespace Edit

open Schema

variable {s : Schema} {p ch : TableId} {r : RelationshipId}

/-- The edit inside the compound edit: the steps, with the child in secondary-change mode. -/
theorem withinMode_ends (hs : s.Sound) (h : Attachable r p ch s) (auto : Bool) :
    (within (.secondaryChange ch) (attachSteps r p ch auto)).Ends
      (fun _ s' => Attaches r p ch auto s s')
      (fun _ s' => AttachHalts r p ch auto s s') s := by
  have hwires := attachSteps_ends (hs.of_sameShape (sameShape_suspended ch s)) (h.suspended hs ch) auto
  rw [ends_within]
  unfold enter
  simp only [ends_bind, ends_pure]
  refine (enterSecondaryChange_ends h.child).total ?_
  rintro _ _ ⟨rfl, rfl⟩
  refine hwires.performed.mono ?_ fun _ _ h => h.1.elim
  rintro _ _ ⟨h₁, rfl⟩
  cases hh : s.isHolding ch with
  | true => exact ⟨h₁, .inl ⟨hh, rfl⟩⟩
  | false =>
      refine (exitSecondaryChange_ends h₁.sound ch).mono (fun _ s' h' => ?_) fun _ s' h' => ?_
      · exact ⟨h₁, .inr ⟨hh, h'⟩⟩
      · exact ⟨hh, h₁, h'⟩

/-- Attaching goes through, or is refused by its checks and leaves the schema untouched, or stops
halfway because catching up loses a key column of the child. -/
theorem attachRelationship_ends (hs : s.Sound) (r : RelationshipId) (p ch : TableId) (auto : Bool) :
    (attachRelationship r p ch auto).Ends
      (fun _ s' => Attachable r p ch s ∧ ∃ s₁, Attaches r p ch auto (s.attachStart r) s₁ ∧
        s' = s₁.signal .compoundEditEnded)
      (fun _ s' => (¬ Attachable r p ch s ∧ s.Untouched s') ∨
        (Attachable r p ch s ∧ ∃ s₁, AttachHalts r p ch auto (s.attachStart r) s₁ ∧
          s' = s₁.signal .compoundEditEnded)) s := by
  unfold attachRelationship
  simp only [ends_bind, ends_relationship, ends_discard, ends_table, ends_get]
  refine ⟨fun rel hrel => ⟨fun ptbl hptbl => ⟨fun ctbl hctbl => ?_, fun hct => ?_⟩, fun hpt => ?_⟩,
    fun hr => ?_⟩
  · have hm : s.mappingsOf r = rel.mappings := by simp [mappingsOf, hrel]
    have hid : s.isIdentifying r = rel.identifying := by simp [isIdentifying, hrel]
    split
    · rename_i hreg
      refine .inl ⟨fun h => ?_, .refl s⟩
      have hmap := h.mappings
      rw [hm] at hmap
      simp [hmap, h.registered] at hreg
    · rename_i hreg
      simp only [Bool.or_eq_true, Bool.not_eq_true', not_or, Bool.not_eq_true,
        Bool.not_eq_false, List.isEmpty_iff] at hreg
      simp only [ends_bind, ends_refuseCycle]
      refine ⟨fun hcycle => ?_, fun hcycle => .inl ⟨fun h => ?_, .refl s⟩⟩
      · have hatt : Attachable r p ch s :=
          ⟨Roster.contains_of_get? hptbl, Roster.contains_of_get? hctbl, Roster.contains_of_get? hrel,
            hm.trans hreg.1, hreg.2, by rw [hid]; exact hcycle⟩
        have hstart : s.signal (.compoundEditStarted s!"attach relationship {rel.name}") =
            s.attachStart r := by simp [attachStart, hrel]
        rw [ends_within]
        unfold enter leave
        simp only [ends_bind, ends_change, ends_pure, hstart]
        exact (withinMode_ends (hs.signal _) hatt.attachStart auto).mono
          (fun _ s₁ h => ⟨hatt, s₁, h, rfl⟩)
          fun _ s₁ h => .inr ⟨hatt, s₁, h, rfl⟩
      · have := h.cycle
        rw [hid] at this
        simp only [endsCloseCycle] at hcycle
        rw [this] at hcycle
        exact Bool.false_ne_true hcycle
  · refine .inl ⟨fun h => ?_, .refl s⟩
    exact absurd h.child (by simp [Roster.contains, hct])
  · refine .inl ⟨fun h => ?_, .refl s⟩
    exact absurd h.parent (by simp [Roster.contains, hpt])
  · refine .inl ⟨fun h => ?_, .refl s⟩
    exact absurd h.stored (by simp [Roster.contains, hr])

/-- Attaching is refused if nothing stands against it but the circle that it would close. -/
theorem attachRelationship_cycle (hp : s.tables.contains p = true) (hch : s.tables.contains ch = true)
    (hr : s.relationships.contains r = true) (hm : s.mappingsOf r = [])
    (hreg : s.isRegistered r = false) (hcycle : (s.isIdentifying r && s.closesCycle r p ch) = true) :
    (attachRelationship r p ch auto).Ends (fun _ _ => False) (fun e _ => e = .identifyingCycle r) s := by
  obtain ⟨rel, hrel⟩ := (Roster.contains_iff _ _).mp hr
  obtain ⟨ptbl, hptbl⟩ := (Roster.contains_iff _ _).mp hp
  obtain ⟨ctbl, hctbl⟩ := (Roster.contains_iff _ _).mp hch
  have hempty : rel.mappings = [] := by simpa [mappingsOf, hrel] using hm
  have hid : s.isIdentifying r = rel.identifying := by simp [isIdentifying, hrel]
  rw [hid] at hcycle
  unfold attachRelationship
  simp only [ends_bind, ends_relationship_of hrel, ends_discard, ends_table_of hptbl,
    ends_table_of hctbl, ends_get, hempty, hreg, List.isEmpty_nil, Bool.not_true, Bool.or_self,
    Bool.false_eq_true, if_false, ends_refuseCycle]
  exact ⟨fun h => absurd (h.symm.trans hcycle) Bool.false_ne_true, fun _ => trivial⟩

end Edit

end KeyedSchema
