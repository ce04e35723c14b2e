import KeyedSchema.Proofs.Anchoring
import KeyedSchema.Proofs.Identity

/-!
# KeyMembership — child columns of identifying relationships are key columns

Of all edits only two can set a column adrift. A column may be taken out of its key by hand. And
registering a relationship on its second side makes it live without a look at what it maps: if it
became identifying before, and maps a column outside of the key, the column is passed over, although
it would have been promoted had the steps come in another order. Every other edit promotes the
columns that it binds: `Does.adrift` for one edit, `adrift_run` for a run.
-/

namespace KeyedSchema

namespace Move

/-- The relationship that a move is to register with one of its ends. -/
def registered? : Move → Option RelationshipId
  | .edit (.addExportedKey _ r) => some r
  | .edit (.addImportedKey _ r) => some r
  | _ => none

/-- The column that a move is to take out of its key. -/
def demoted? : Move → Option ColumnId
  | .edit (.setPrimaryKeySeq c none) => some c
  | _ => none

/-- Whether a move may set the child column of a mapping adrift: it registers a relationship that is
not live yet, or takes a mapped column out of its key. -/
def Unmoors (move : Move) (s : Schema) (r : RelationshipId) (m : Mapping) : Prop :=
  (move.registered? = some r ∧ s.isLive r = false) ∨
    (move.demoted? = some m.fk ∧ m ∈ s.mappingsOf r)

end Move

namespace Schema

variable {s s' s'' : Schema} {t p ch : TableId} {c pk fk : ColumnId} {r : RelationshipId}
  {m : Mapping}

/-! ## Relationships and tables that go -/

theorem Unlinked.anchors (h : Unlinked r s s') : Anchors s s' := by
  refine h.inherits.anchors_of_columns (fun r' => ?_) h.columns
  rw [h.mappingsOf]
  split
  · exact List.nil_subset _
  · exact List.Subset.refl _

theorem anchors_dropRelationship (r : RelationshipId) (s : Schema) :
    Anchors s (s.dropRelationship r) := by
  refine (inherits_dropRelationship r s).anchors_of_columns (fun r' => ?_) rfl
  rw [mappingsOf_dropRelationship]
  split
  · exact List.nil_subset _
  · exact List.Subset.refl _

theorem coversDismissal_anchors : CoversDismissal Anchors where
  refl := .refl
  trans := .trans
  unlink hs r := (hs.unlinked r).anchors
  check hs hw := by
    refine hs.anchors_prune (fun task ht => ?_) hw
    obtain ⟨fk, -, rfl⟩ := List.mem_map.mp ht
    trivial
  drop _ := anchors_dropRelationship _ _

theorem Removes.anchors (h : Removes t s s') (hs : s.Sound) : Anchors s s' := by
  have hs' := h.sound hs
  obtain ⟨-, s₁, i, hd, ho⟩ := h
  refine ((coversDismissal_anchors.chain hs hd).trans ?_).trans ho.anchors
  refine (inherits_eraseTable t i s₁).anchors
    (fun r => mappingsOf_eraseTable t i s₁ r ▸ List.Subset.refl _) fun r m hm hk => ?_
  -- the columns of the table are mapped by no relationship that is left
  have hstored : (s₁.eraseTable t i).columns.contains m.fk = true :=
    (hs'.of_sameObjects ho.symm).fk_stored hm
  obtain ⟨col, hcol⟩ := (Roster.contains_iff _ _).mp hstored
  have hget := get?_column_eraseTable t i s₁ m.fk
  rw [isKey_of_get? hcol]
  rw [hcol] at hget
  split at hget
  · simp at hget
  · rwa [isKey_of_get? hget.symm] at hk

/-! ## Columns and mappings -/

theorem Inserts.anchors {i : Nat} {col : Column} (h : Inserts t i col s s') (hs : s.Sound)
    (ha : s.Acyclic) : Anchors s s' := by
  have hf := sameFrame_placeColumn t i col s
  have hg := hs.grows_placeColumn t i col
  refine (hg.anchors fun r => mappingsOf_placeColumn t i col s r ▸ List.Subset.refl _).trans ?_
  refine (hs.placeColumn h.table h.index col).anchors_grow (ha.inherits hf.inherits)
    (fun task ht => ?_) (fun task ht => ?_) h.worksOff
  all_goals
    split at ht
    case isFalse => exact absurd ht List.not_mem_nil
    obtain rfl := List.mem_singleton.mp ht
  · simp [contains_placeColumn]
  · exact Nat.le_of_eq hf.size_tables

theorem Places.anchors {k : Nat} (h : Places c k s s') (hs : s.Sound) (ha : s.Acyclic)
    (hc : s.columns.contains c = true) : Anchors s s' := by
  cases h with
  | joins _ hw =>
      have hre := reranks_changeRank c none (some k) s
      refine ((grows_changeRank hc none k).anchors fun r => (hre.mappingsOf r).subset).trans ?_
      refine (hre.sound hs).anchors_grow (ha.inherits hre.sameFrame.inherits) (fun task ht => ?_)
        (fun task ht => ?_) hw
      · obtain rfl := List.mem_singleton.mp ht
        exact (hre.sameShape.contains_column c).trans hc
      · obtain rfl := List.mem_singleton.mp ht
        exact Nat.le_of_eq hre.sameFrame.size_tables
  | @moves old t _ _ =>
      have hre := reranks_changeRank c (some old) (some k) s
      have hkept := (grows_changeRank hc (some old) k).anchors fun r => (hre.mappingsOf r).subset
      split
      · exact hkept.trans ((hre.sound hs).anchors_normalizeKey t (some c))
      · exact hkept
  | stays _ => exact .refl s

theorem Moves.anchors (h : Moves s s') (hs : s.Sound) : Anchors s s' := by
  obtain ⟨s₁, h₁, rfl | ⟨t, rfl⟩⟩ := h
  · exact h₁.anchors
  · exact h₁.anchors.trans ((h₁.sound hs).anchors_normalizeKey t none)

/-- The child column of a new mapping of an identifying relationship is to join the key. -/
theorem adrift_appendMapping (hr : s.relationships.contains r = true) {r' : RelationshipId}
    (h : (s.appendMapping r ⟨pk, fk⟩).Adrift r' m) :
    s.Adrift r' m ∨ ∃ depth, .promote depth m.fk ∈ s.joining r fk := by
  have hf := sameFrame_appendMapping r ⟨pk, fk⟩ s
  have hkey := isKey_of_columns (columns_appendMapping r ⟨pk, fk⟩ s) m.fk
  have hbefore (hm : m ∈ s.mappingsOf r') : s.Adrift r' m := h.before hf.inherits hm hkey.trans
  have hm := h.mapped
  rw [mappingsOf_appendMapping hr] at hm
  split at hm
  · rename_i heq
    subst heq
    refine (List.mem_append.mp hm).imp hbefore fun hm => ⟨s.tables.size, ?_⟩
    obtain rfl := List.mem_singleton.mp hm
    unfold joining
    rw [← hf.isIdentifying, h.isIdentifying, hkey.symm.trans h.outside]
    exact List.mem_singleton_self _
  · exact .inl (hbefore hm)

theorem Maps.anchors (h : Maps r pk fk s s') (hs : s.Sound) (ha : s.Acyclic) : Anchors s s' := by
  obtain ⟨p, ch, hp, hch, hpk, hfk⟩ := h.ends
  obtain ⟨s₁, hw, hs'⟩ := h.worksOff
  have hf := sameFrame_appendMapping r ⟨pk, fk⟩ s
  have happ := hs.appendMapping (m := ⟨pk, fk⟩) hp hch hpk hfk h.unmapped
  have hdepth : ∀ task ∈ s.joining r fk, (s.appendMapping r ⟨pk, fk⟩).tables.size ≤ task.depth := by
    intro task ht
    rw [eq_of_mem_joining ht]
    exact Nat.le_of_eq hf.size_tables
  have hrun : Anchors s s₁ := fun _ _ => happ.adrift_grow (ha.inherits hf.inherits)
    (ready_joining (contains_of_owner? hfk)) hdepth
    (fun _ _ => adrift_appendMapping (contains_of_parent? hp)) hw
  rcases hs' with rfl | ⟨rfl, -⟩
  · exact hrun.trans (anchors_syncMappingOrder r s₁)
  · exact hrun

/-! ## The identifying flag -/

/-- What is adrift with a new flag was so before, unless the flag has just been set. -/
theorem Adrift.of_marked {old new : Bool} {r' : RelationshipId}
    (h : (s.markIdentifying r old new).Adrift r' m) :
    s.Adrift r' m ∨ (r' = r ∧ new = true ∧ s.isIdentifying r' = false) := by
  cases hbefore : s.isIdentifying r' with
  | true =>
      exact .inl ⟨((sameShape_markIdentifying r old new s).isLive r').symm.trans h.isLive, hbefore,
        mappingsOf_markIdentifying r r' old new s ▸ h.mapped,
        (isKey_of_columns (columns_markIdentifying r old new s) m.fk).symm.trans h.outside⟩
  | false =>
      have hid := h.isIdentifying
      rw [isIdentifying_markIdentifying] at hid
      split at hid
      · rename_i heq
        exact .inr ⟨heq, (Bool.and_eq_true_iff.mp hid).2, rfl⟩
      · exact absurd (hid.symm.trans hbefore) Bool.noConfusion

/-- A relationship that has become identifying has its columns promoted, and one that is no longer
identifying leaves the columns of the others in the key. -/
theorem Marks.anchors {new : Bool} (h : Marks r new s s') (hs : s.Sound) (ha : s.Acyclic)
    (hcycle : (new && !s.isIdentifying r && s.endsCloseCycle r (s.parent? r) (s.child? r)) = false) :
    Anchors s s' := by
  cases h with
  | plain hplain =>
      intro r' m hadrift
      refine hadrift.of_marked.resolve_right ?_
      rintro ⟨rfl, rfl, hnot⟩
      rcases hplain with hid | hdead
      · exact absurd (hid.symm.trans hnot) Bool.noConfusion
      · rw [← (sameShape_markIdentifying r' _ true s).isLive, hadrift.isLive] at hdead
        exact Bool.noConfusion hdead
  | tightens hnew hold _ hw =>
      subst hnew
      have hs₁ := hs.of_sameShape (sameShape_markIdentifying r false true s)
      have ha₁ := ha.markIdentifying hs r hcycle
      rw [hold] at ha₁
      have hsize : (s.markIdentifying r false true).tables.size = s.tables.size :=
        (replaces_changeRelationship (markIdentifying_objects r false true s)).agreeBut.size
      refine fun _ _ => hs₁.adrift_grow ha₁ (hs.ready_marked r _ _) (fun task ht => ?_)
        (fun r' m hadrift => ?_) hw
      · obtain ⟨fk, -, rfl⟩ := List.mem_map.mp ht
        exact Nat.le_of_eq hsize
      · refine hadrift.of_marked.imp_right ?_
        rintro ⟨rfl, -⟩
        have hm := hadrift.mapped
        rw [mappingsOf_markIdentifying] at hm
        exact ⟨_, List.mem_map.mpr ⟨m.fk, List.mem_map.mpr ⟨m, hm, rfl⟩, rfl⟩⟩
  | loosens hnew _ _ hw =>
      subst hnew
      have hs₁ := hs.of_sameShape (sameShape_markIdentifying r true false s)
      have hmark : Anchors s (s.markIdentifying r true false) := fun r' m hadrift =>
        hadrift.of_marked.resolve_right fun h => Bool.noConfusion h.2.1
      refine hmark.trans (hs₁.anchors_prune (fun task ht => ?_) hw)
      obtain ⟨fk, -, rfl⟩ := List.mem_map.mp ht
      change (s.markIdentifying r true false).isIdentifying r = false
      rw [isIdentifying_markIdentifying, if_pos rfl, Bool.and_false]

/-! ## Catching up -/

section

variable {key : List ColumnId} {rs : List RelationshipId}

/-- Mapping columns of a key in a relationship. -/
theorem Reconcilable.anchors_map {xs : List ColumnId} (hr : Reconcilable xs p r s) (hs : s.Sound)
    (ha : s.Acyclic) {depth : Nat} (hdepth : s.tables.size ≤ depth)
    (hw : WorksOff Grow.step (xs.map (.map depth r)) s s') : Anchors s s' := by
  refine hs.anchors_grow ha (fun task ht => ?_) (fun task ht => ?_) hw
  · obtain ⟨x, hx, rfl⟩ := List.mem_map.mp ht
    exact hr.ready depth hx
  · obtain ⟨x, -, rfl⟩ := List.mem_map.mp ht
    exact hdepth

theorem Sound.anchors_sweep (hs : s.Sound) (hw : WorksOff Prune.step [.sweep r key] s s') :
    Anchors s s' := by
  refine hs.anchors_prune (fun task ht => ?_) hw
  obtain rfl := List.mem_singleton.mp ht
  trivial

theorem Reconciles.anchors (h : Reconciles key r s s') (hs : s.Sound) (ha : s.Acyclic)
    (hr : Reconcilable key p r s) : Anchors s s' := by
  obtain ⟨s₁, s₂, hw₁, hkey, hw₂, rfl⟩ := h
  obtain ⟨hs₁, hsh⟩ := hs.prune hw₁
  have hmapped := (hr.shrinks hsh hkey).anchors_map hs₁ (ha.inherits hsh.frame.inherits)
    (Nat.le_of_eq hsh.frame.size_tables) hw₂
  exact ((hs.anchors_sweep hw₁).trans hmapped).trans (anchors_syncMappingOrder r s₂)

theorem Stalls.anchors (h : Stalls key r s s') (hs : s.Sound) (ha : s.Acyclic)
    (hr : Reconcilable key p r s) : Anchors s s' := by
  obtain ⟨s₁, done, x, rest, hw₁, rfl, hdone, -, hw₂⟩ := h.halfway
  obtain ⟨hs₁, hsh⟩ := hs.prune hw₁
  have hr₁ := (hr.sublist (List.sublist_append_left done (x :: rest))).shrinks hsh hdone
  exact (hs.anchors_sweep hw₁).trans (hr₁.anchors_map hs₁ (ha.inherits hsh.frame.inherits)
    (Nat.le_of_eq hsh.frame.size_tables) hw₂)

theorem anchors_of_reconciled (h : Chain (Reconciles key) rs s s') (hs : s.Sound) (ha : s.Acyclic)
    (hrs : ∀ r ∈ rs, Reconcilable key p r s) : Anchors s s' :=
  (reconciling_of_chain h hs hrs (.refl s) fun _ _ _ h₁ hr hanchors hrec =>
    hanchors.trans (hrec.anchors h₁.sound (ha.inherits h₁.frame.inherits) hr)).2

theorem StallsAny.anchors (h : StallsAny key rs s s') (hs : s.Sound) (ha : s.Acyclic)
    (hrs : ∀ r ∈ rs, Reconcilable key p r s) : Anchors s s' := by
  obtain ⟨done, r, rest, s₁, rfl, hchain, h⟩ := h.cases
  have hdone : ∀ r' ∈ done, Reconcilable key p r' s := fun r' hr' =>
    hrs r' (List.mem_append_left _ hr')
  have h₁ := reconciled_of_chain hchain hs hdone
  exact (anchors_of_reconciled hchain hs ha hdone).trans
    (h.anchors h₁.sound (ha.inherits h₁.frame.inherits) (h₁.keeps r (hrs r (by simp))))

end

theorem anchors_setMagic (t : TableId) (on : Bool) (s : Schema) : Anchors s (s.setMagic t on) :=
  (inherits_setMagic t on s).anchors_of_columns (fun _ => List.Subset.refl _) rfl

theorem anchors_suspended (t : TableId) (s : Schema) : Anchors s (s.suspended t) := by
  refine (inherits_suspended t s).anchors_of_columns (fun r => ?_) ?_
  all_goals
    unfold suspended
    split
  · exact List.Subset.refl _
  · exact List.Subset.refl _
  · rfl
  · rfl

theorem anchors_settled (t : TableId) (s : Schema) : Anchors s (s.settled t) :=
  (inherits_settled t s).anchors_of_columns (fun _ => List.Subset.refl _) rfl

theorem Sound.anchors_catchUpStart (hs : s.Sound) (t : TableId) (name : String) :
    Anchors s (s.catchUpStart t name) := by
  have hs₁ := (hs.of_sameShape (sameShape_settled t s)).signal
    (.compoundEditStarted s!"update keys exported by {name}")
  exact ((anchors_settled t s).trans (SameObjects.signal _ _).anchors).trans
    (hs₁.anchors_normalizeKey t none)

theorem Exits.anchors (h : Exits t s s') (hs : s.Sound) (ha : s.Acyclic) : Anchors s s' := by
  cases h with
  | absent _ => exact (SameObjects.forget t s).anchors
  | plain _ _ => exact anchors_settled t s
  | @caughtUp tbl s₁ _ _ _ hchain =>
      have hs₀ := hs.of_sameShape (sameShape_catchUpStart t tbl.name s)
      have hcaught := anchors_of_reconciled hchain hs₀ (ha.catchUpStart t tbl.name)
        fun r hr => hs₀.reconcilable hr
      exact ((hs.anchors_catchUpStart t tbl.name).trans hcaught).trans
        (SameObjects.signal _ s₁).anchors

theorem Halts.anchors (h : Halts t s s') (hs : s.Sound) (ha : s.Acyclic) : Anchors s s' := by
  obtain ⟨name, s₁, hstalls, rfl⟩ := h.stalls
  have hs₀ := hs.of_sameShape (sameShape_catchUpStart t name s)
  have hcaught := hstalls.anchors hs₀ (ha.catchUpStart t name) fun r hr => hs₀.reconcilable hr
  exact ((hs.anchors_catchUpStart t name).trans hcaught).trans (SameObjects.signal _ s₁).anchors

theorem Switches.anchors (h : Switches s s') : Anchors s s' := by
  cases h with
  | untouched h => exact h.anchors
  | told h => exact h.anchors
  | suspended t => exact anchors_suspended t s
  | magic t on => exact anchors_setMagic t on s

theorem Closes.anchors (h : Closes s s') (hs : s.Sound) (ha : s.Acyclic) : Anchors s s' := by
  cases h with
  | switches h => exact h.anchors
  | exits h => exact h.anchors hs ha
  | halts h => exact h.anchors hs ha

/-! ## Attaching -/

/-- A relationship that is attached has no mappings before the key of its parent is mapped. -/
theorem Connected.anchors (h : Connected r p ch s s') (hm : s.mappingsOf r = []) :
    Anchors s s' := by
  intro r' m hadrift
  have hl := hadrift.isLive
  have hmapped := hadrift.mapped
  rw [h.mappingsOf] at hmapped
  rw [h.isLive, Bool.or_eq_true, decide_eq_true_eq] at hl
  refine ⟨hl.resolve_left ?_, (h.isIdentifying r').symm.trans hadrift.isIdentifying, hmapped,
    (isKey_of_columns h.columns m.fk).symm.trans hadrift.outside⟩
  rintro rfl
  rw [hm] at hmapped
  exact absurd hmapped List.not_mem_nil

theorem Wires.anchors {auto : Bool} (h : Wires r p ch auto s s') (hs : s.Sound) (ha : s.Acyclic)
    (hm : s.mappingsOf r = []) (hcycle : (s.isIdentifying r && s.closesCycle r p ch) = false) :
    Anchors s s' := by
  obtain ⟨s₁, hc, hw⟩ := h.connected
  refine (hc.anchors hm).trans
    (hc.sound.anchors_grow (ha.connected hs hc hcycle) hc.ready_wiring (fun task ht => ?_) hw)
  split at ht
  · obtain ⟨x, -, rfl⟩ := List.mem_map.mp ht
    exact Nat.le_of_eq hc.agree.size
  · exact absurd ht List.not_mem_nil

theorem Attachable.anchors_wired {auto : Bool} (hatt : Attachable r p ch s) (hs : s.Sound)
    (ha : s.Acyclic) (hw : Wires r p ch auto (s.suspended ch) (s.wired r p ch auto)) :
    Anchors s (s.wired r p ch auto) := by
  have hatt' := hatt.suspended hs ch
  exact (anchors_suspended ch s).trans (hw.anchors (hs.of_sameShape (sameShape_suspended ch s))
    (ha.inherits (inherits_suspended ch s)) hatt'.mappings hatt'.cycle)

theorem Attaches.anchors {auto : Bool} (h : Attaches r p ch auto s s') (hs : s.Sound)
    (ha : s.Acyclic) (hatt : Attachable r p ch s) : Anchors s s' := by
  have hwired := hatt.anchors_wired hs ha h.wires
  rcases h.settles with ⟨-, rfl⟩ | ⟨-, hexits⟩
  · exact hwired
  · exact hwired.trans (hexits.anchors h.wires.sound (ha.wired hs hatt h.wires))

theorem AttachHalts.anchors {auto : Bool} (h : AttachHalts r p ch auto s s') (hs : s.Sound)
    (ha : s.Acyclic) (hatt : Attachable r p ch s) : Anchors s s' :=
  (hatt.anchors_wired hs ha h.wires).trans
    (h.halts.anchors h.wires.sound (ha.wired hs hatt h.wires))

/-! ## Registering by hand -/

/-- Registering a relationship may set its own columns adrift, if that makes it live. -/
theorem Reregisters.adrift (h : Reregisters s s') (hagree : AgreeBut r s s') {r' : RelationshipId}
    (hadrift : s'.Adrift r' m) : s.Adrift r' m ∨ (r = r' ∧ s.isLive r' = false) := by
  have hback (hl : s.isLive r' = true) : s.Adrift r' m :=
    ⟨hl, (h.isIdentifying r').symm.trans hadrift.isIdentifying, h.mappingsOf r' ▸ hadrift.mapped,
      (isKey_of_columns h.columns m.fk).symm.trans hadrift.outside⟩
  by_cases hr : r' = r
  · cases hl : s.isLive r' with
    | true => exact .inl (hback hl)
    | false => exact .inr ⟨hr.symm, rfl⟩
  · exact .inl (hback ((hagree.isLive hr).symm.trans hadrift.isLive))

/-- A change of a relationship that is not registered. -/
theorem anchors_changeRelationship {f : Relationship → Relationship} (hs : s.Sound)
    (h : SameObjects (s.changeRelationship r f) s') (hf : ∀ rel, (f rel).mappings = rel.mappings)
    (hreg : s.isRegistered r = false) : Anchors s s' := by
  refine (inherits_changeRelationship hs h hreg).anchors_of_columns (fun r' => ?_) h.columns
  have hm : s'.mappingsOf r' = (s.changeRelationship r f).mappingsOf r' := by
    unfold Schema.mappingsOf
    rw [h.relationships]
  rw [hm, changeRelationship]
  exact (mappingsOf_changeRelationship r r' s hf) ▸ List.Subset.refl _

end Schema

namespace Op

open Schema

variable {s s' : Schema} {op : Op} {r : RelationshipId} {m : Mapping}

/-- What an operation does sets a column adrift only where it registers a relationship or takes the
column out of its key. -/
theorem Does.adrift (h : op.Does s s') (hs : s.Sound) (ha : s.Acyclic) (hadrift : s'.Adrift r m) :
    s.Adrift r m ∨ (Move.edit op).Unmoors s r m := by
  have hkept (h : Anchors s s') : s.Adrift r m ∨ (Move.edit op).Unmoors s r m :=
    .inl (h r m hadrift)
  cases op
  case addTable tbl =>
    obtain rfl := h
    have hobjects := appendTable_objects tbl s
    refine hkept ((hs.inherits_appendTable tbl).anchors_of_columns (fun r => ?_) hobjects.1)
    exact mappingsOf_appendTable tbl s r ▸ List.Subset.refl _
  case removeTable t => exact hkept (AmidEvents.anchors h hs fun _ _ _ hs₁ h => h.anchors hs₁)
  case addColumn t col =>
    obtain ⟨i, h⟩ := h
    exact hkept (h.anchors hs fun _ _ ho hs₁ h =>
      h.anchors hs₁ (ha.inherits ho.sameFrame.inherits))
  case insertColumn t i col =>
    exact hkept (AmidEvents.anchors h hs fun _ _ ho hs₁ h =>
      h.anchors hs₁ (ha.inherits ho.sameFrame.inherits))
  case removeColumn c =>
    refine hkept (h.2.2.anchors hs fun s₁ s₂ _ hs₁ hw => hs₁.anchors_prune (fun task ht => ?_) hw)
    obtain rfl := List.mem_singleton.mp ht
    trivial
  case moveColumn c i => exact hkept (Moves.anchors h hs)
  case setPrimaryKeySeq c rank =>
    cases rank with
    | none =>
        obtain ⟨-, s₁, s₂, h₁, hw, h₂⟩ := h
        have hs₁ := hs.of_sameObjects h₁
        have hadrift₂ := h₂.anchors r m hadrift
        -- what the demotion leads to takes only mappings away, so the column was mapped before
        refine (hs₁.adrift_of_demote hw hadrift₂).imp (h₁.anchors r m) fun hfk => .inr ⟨?_, ?_⟩
        · exact congrArg some hfk.symm
        · have hm := (hs₁.prune hw).2.mappingsOf r hadrift₂.mapped
          exact (h₁.sameShape.mappingsOf r).subset hm
    | some k =>
        exact hkept (h.2.anchors hs fun s₁ _ ho hs₁ h' =>
          h'.anchors hs₁ (ha.inherits ho.sameFrame.inherits) (ho.columns ▸ h.1))
  case normalizePrimaryKey t =>
    obtain rfl := h
    exact hkept (hs.anchors_normalizeKey t none)
  case createRelationship rel =>
    obtain ⟨-, -, rfl⟩ := h
    have hrep := replaces_storeRelationship { rel with mappings := [] } s
    refine hkept ((hrep.inherits (hrep.not_isLive hs.next_notMem.1)).anchors_of_columns
      (fun r => ?_) rfl)
    unfold Schema.mappingsOf
    rw [get?_storeRelationship]
    split
    · exact List.nil_subset _
    · exact List.Subset.refl _
  case setParent r t =>
    obtain ⟨hreg, -, -, rfl⟩ := h
    exact hkept (anchors_changeRelationship hs (SameObjects.raise _ _) (fun _ => rfl) hreg)
  case setChild r t =>
    obtain ⟨hreg, -, -, rfl⟩ := h
    exact hkept (anchors_changeRelationship hs (SameObjects.raise _ _) (fun _ => rfl) hreg)
  case addExportedKey t r' =>
    obtain ⟨hp, ⟨-, rfl⟩ | ⟨-, -, rfl⟩⟩ := h
    · exact .inl hadrift
    · have hagree := agreeBut_registerExported (hs.parent_stored r' t hp) r'
      exact ((reregisters_registerExported t r' s).adrift hagree hadrift).imp_right
        fun h => .inl ⟨congrArg some h.1, h.2⟩
  case addImportedKey t r' =>
    obtain ⟨hch, ⟨-, rfl⟩ | ⟨-, -, rfl⟩⟩ := h
    · exact .inl hadrift
    · have hagree := agreeBut_registerImported (hs.child_stored r' t hch) r'
      exact ((reregisters_registerImported t r' s).adrift hagree hadrift).imp_right
        fun h => .inl ⟨congrArg some h.1, h.2⟩
  case removeExportedKey t r' =>
    obtain ⟨-, h⟩ | ⟨-, rfl⟩ := h
    · exact hkept (h.anchors hs fun _ _ _ hs₁ h => coversDismissal_anchors.detaches hs₁ h)
    · exact hkept (hs.deregisters_exported r').anchors
  case removeImportedKey t r' =>
    obtain ⟨-, h⟩ | ⟨-, rfl⟩ := h
    · exact hkept (h.anchors hs fun _ _ _ hs₁ h => coversDismissal_anchors.detaches hs₁ h)
    · exact hkept (hs.deregisters_imported r').anchors
  case removeRelationship r' =>
    obtain ⟨-, h⟩ | ⟨-, rfl⟩ := h
    · exact hkept (h.anchors hs fun _ _ _ hs₁ h => coversDismissal_anchors.detaches hs₁ h)
    · exact hkept (coversDismissal_anchors.discard hs r')
  case addMapping r' pk fk =>
    exact hkept (AmidEvents.anchors h hs fun _ _ ho hs₁ h =>
      h.anchors hs₁ (ha.inherits ho.sameFrame.inherits))
  case removeMapping r' pk => exact hkept (Unmaps.anchors h)
  case mapPrimaryKeyColumn r' pk =>
    obtain ⟨-, -, hready, -, h⟩ := h
    refine hkept (h.anchors hs fun s₁ _ ho hs₁ hw => hs₁.anchors_grow
      (ha.inherits ho.sameFrame.inherits) (fun task ht => ?_) (fun task ht => ?_) hw)
    · obtain rfl := List.mem_singleton.mp ht
      exact ho.grows.ready hready
    · obtain rfl := List.mem_singleton.mp ht
      exact Nat.le_of_eq ho.sameFrame.size_tables
  case attachRelationship r' p ch auto =>
    exact hkept (h.attaches.anchors hs fun _ _ ho hs₁ h =>
      h.2.anchors hs₁ (ha.inherits ho.sameFrame.inherits) h.1)
  case setIdentifying r' new =>
    obtain ⟨hcycle, s₁, s₂, h₁, h, h₂⟩ := h
    obtain ⟨held, raised, published, origins, rfl⟩ := h₁.exists_eq
    exact hkept ((h₁.anchors.trans (h.anchors (hs.of_sameObjects h₁)
      (ha.inherits h₁.sameFrame.inherits) hcycle)).trans h₂.anchors)
  case setSecondaryChangeMode t on => exact hkept (h.closes.anchors hs ha)
  case setMagicEnabled t on =>
    obtain rfl := h
    exact hkept (anchors_setMagic t on s)
  all_goals exact hkept (SameSkeleton.anchors h)

/-- An operation that stops halfway sets no column adrift. -/
theorem Halts.anchors (h : op.Halts s s') (hs : s.Sound) (ha : s.Acyclic) : Anchors s s' := by
  obtain ⟨r, p, ch, auto, h⟩ | ⟨t, h⟩ := h.cases
  · exact h.anchors hs fun _ _ ho hs₁ h => h.2.anchors hs₁ (ha.inherits ho.sameFrame.inherits) h.1
  · exact h.anchors hs ha

/-- Whatever an operation ends in, a column that is adrift then was so before, or the operation is
one of those that set columns adrift. -/
theorem adrift_perform (hs : s.Sound) (ha : s.Acyclic) (hadrift : (op.perform s).2.Adrift r m) :
    s.Adrift r m ∨ (Move.edit op).Unmoors s r m := by
  refine perform_preserves
    (P := fun s' => s'.Adrift r m → s.Adrift r m ∨ (Move.edit op).Unmoors s r m) hs op
    (fun _ h => h.adrift hs ha) (fun _ h hadrift => .inl (h.anchors hs ha r m hadrift))
    (fun _ h hadrift => .inl (h.anchors r m hadrift)) hadrift

end Op

/-! ## Runs -/

namespace Schema

/-- Whether a relationship maps the column on its child side. -/
def isMappedTo (s : Schema) (c : ColumnId) : Bool :=
  s.relationships.anyEntry fun _ rel => rel.mapsTo c

theorem Sound.isMappedTo_of_mem {s : Schema} {r : RelationshipId} {m : Mapping} (hs : s.Sound)
    (hm : m ∈ s.mappingsOf r) : s.isMappedTo m.fk = true := by
  obtain ⟨rel, hrel, hm'⟩ := mem_mappingsOf.mp hm
  exact (Roster.anyEntry_iff hs.relationships_nodup _).mpr
    ⟨r, rel, hrel, mapsTo_iff.mpr ⟨m, hm', rfl⟩⟩

end Schema

namespace Moment

open Schema

variable {config : Config} {moves before after : List Move} {move : Move} {r : RelationshipId}
  {m : Mapping}

/-- A column that is adrift after a move was so before, or the move is one of those that set columns
adrift. -/
theorem adrift_after {now : Moment} (hs : now.schema.Sound) (ha : now.schema.Acyclic)
    (h : (now.after move).schema.Adrift r m) :
    now.schema.Adrift r m ∨ move.Unmoors now.schema r m := by
  cases move with
  | edit op => exact Op.adrift_perform hs ha h
  | enter scope =>
      have hanchors := (Edit.switches_enter now.schema scope).anchors
      rw [schema_after_enter] at h
      exact .inl (hanchors r m h)
  | leave =>
      unfold Moment.after at h
      dsimp only at h
      split at h
      · exact .inl h
      · exact .inl ((Edit.closes_leave hs _).anchors hs ha r m h)

/-- A column that is adrift at the end of a run was set adrift by some move, and has been ever
since. -/
theorem exists_unmoors (h : ((start config).run moves).schema.Adrift r m) :
    ∃ before move after, moves = before ++ move :: after ∧
      move.Unmoors ((start config).run before).schema r m ∧
      ∀ later, later <+: after →
        ((start config).run (before ++ move :: later)).schema.Adrift r m := by
  induction moves using List.reverseRecOn with
  | nil => exact absurd h.mapped List.not_mem_nil
  | append_singleton moves last ih =>
      have hreach : Schema.Reachable ((start config).run moves).schema := ⟨config, moves, rfl⟩
      have hlast := h
      rw [run_append] at hlast
      -- either the last move is the one, or the column was adrift before it
      rcases adrift_after hreach.sound hreach.acyclic hlast with hadrift | hunmoors
      · obtain ⟨before, move, after, rfl, hunmoors, hsince⟩ := ih hadrift
        refine ⟨before, move, after ++ [last], by simp, hunmoors, fun later hlater => ?_⟩
        rcases List.prefix_concat_iff.mp hlater with rfl | hlater
        · simpa using h
        · exact hsince later hlater
      · refine ⟨moves, last, [], rfl, hunmoors, fun later hlater => ?_⟩
        obtain rfl := List.prefix_nil.mp hlater
        exact h

/-- Whether no move of a run takes a column out of its key by hand while a relationship maps it on
its child side. -/
def sparesMapped (now : Moment) : List Move → Bool
  | [] => true
  | move :: moves =>
      (move.demoted?.all fun c => !now.schema.isMappedTo c) && (now.after move).sparesMapped moves

theorem not_isMappedTo_of_sparesMapped {now : Moment} {c : ColumnId}
    (h : now.sparesMapped (before ++ move :: after) = true) (hmove : move.demoted? = some c) :
    (now.run before).schema.isMappedTo c = false := by
  induction before generalizing now with
  | nil =>
      rw [List.nil_append, sparesMapped, hmove, Bool.and_eq_true] at h
      simpa using h.1
  | cons first before ih =>
      rw [List.cons_append, sparesMapped, Bool.and_eq_true] at h
      exact ih h.2

/-- As long as no mapped column is taken out of its key by hand, the child columns of a live
identifying relationship are key columns of its child. The exceptions are columns that were mapped
outside of the key when the relationship, identifying already, was made live by registering it, and
have stayed outside since. -/
theorem identifying_columns_keyed {s : Schema} (hrun : s = ((start config).run moves).schema)
    (hspares : (start config).sparesMapped moves = true) (hlive : s.isLive r = true)
    (hidentifying : s.isIdentifying r = true) (hmapped : m ∈ s.mappingsOf r) :
    (∃ ch, s.child? r = some ch ∧ m.fk ∈ s.primaryKey ch) ∨
      ∃ before move after, moves = before ++ move :: after ∧ move.registered? = some r ∧
        ((start config).run before).schema.isLive r = false ∧
        ∀ later, later <+: after →
          ((start config).run (before ++ move :: later)).schema.Adrift r m := by
  have hs : s.Sound := Schema.Reachable.sound ⟨config, moves, hrun.symm⟩
  cases hkey : s.isKey m.fk with
  | true =>
      obtain ⟨p, ch, -, hch, -, hfk⟩ := hs.mapped r m hmapped
      exact .inl ⟨ch, hch, mem_primaryKey.mpr ⟨(hs.listed ch m.fk).mpr hfk, hkey⟩⟩
  | false =>
      have hadrift : s.Adrift r m := ⟨hlive, hidentifying, hmapped, hkey⟩
      rw [hrun] at hadrift
      obtain ⟨before, move, after, rfl, hunmoors, hsince⟩ := exists_unmoors hadrift
      refine .inr ⟨before, move, after, rfl, ?_⟩
      rcases hunmoors with ⟨hregistered, hdead⟩ | ⟨hdemoted, hm⟩
      · exact ⟨hregistered, hdead, hsince⟩
      · -- a column that is mapped is not taken out by hand
        have hfree := not_isMappedTo_of_sparesMapped hspares hdemoted
        have hs' : ((start config).run before).schema.Sound :=
          Schema.Reachable.sound ⟨config, before, rfl⟩
        exact absurd (hfree.symm.trans (hs'.isMappedTo_of_mem hm)) Bool.noConfusion

/-- A relationship that is mapped and registered first and becomes identifying last; a column that
nothing maps is taken out of the key meanwhile. -/
def markingMoves : List Move :=
  [.edit (.addTable { name := "a" }),
    .edit (.addColumn ⟨1⟩ { name := "id", rank := some 0 }),
    .edit (.addTable { name := "b" }),
    .edit (.addColumn ⟨2⟩ { name := "no", rank := some 0 }),
    .edit (.addColumn ⟨2⟩ { name := "a_id" }),
    .edit (.createRelationship { name := "ab", parent := some ⟨1⟩, child := some ⟨2⟩ }),
    .edit (.addMapping ⟨1⟩ ⟨1⟩ ⟨3⟩),
    .edit (.addImportedKey ⟨2⟩ ⟨1⟩),
    .edit (.addExportedKey ⟨1⟩ ⟨1⟩),
    .edit (.setPrimaryKeySeq ⟨2⟩ none),
    .edit (.setIdentifying ⟨1⟩ true)]

theorem identifying_columns_keyed_marking : ∃ s, s = ((start {}).run markingMoves).schema ∧
    (start {}).sparesMapped markingMoves = true ∧ s.isLive ⟨1⟩ = true ∧
    s.isIdentifying ⟨1⟩ = true ∧ ⟨⟨1⟩, ⟨3⟩⟩ ∈ s.mappingsOf ⟨1⟩ ∧
    ((∃ ch, s.child? ⟨1⟩ = some ch ∧ ⟨3⟩ ∈ s.primaryKey ch) ∨
      ∃ before move after, markingMoves = before ++ move :: after ∧
        move.registered? = some ⟨1⟩ ∧ ((start {}).run before).schema.isLive ⟨1⟩ = false ∧
        ∀ later, later <+: after →
          ((start {}).run (before ++ move :: later)).schema.Adrift ⟨1⟩ ⟨⟨1⟩, ⟨3⟩⟩) := by
  have hspares : (start {}).sparesMapped markingMoves = true := by decide +kernel
  have hlive : ((start {}).run markingMoves).schema.isLive ⟨1⟩ = true := by decide +kernel
  have hidentifying : ((start {}).run markingMoves).schema.isIdentifying ⟨1⟩ = true := by
    decide +kernel
  have hmapped : (⟨⟨1⟩, ⟨3⟩⟩ : Mapping) ∈ ((start {}).run markingMoves).schema.mappingsOf ⟨1⟩ := by
    decide +kernel
  exact ⟨_, rfl, hspares, hlive, hidentifying, hmapped,
    identifying_columns_keyed rfl hspares hlive hidentifying hmapped⟩

/-- An identifying relationship that maps a column outside of the key, and is registered then. -/
def registeringMoves : List Move :=
  [.edit (.addTable { name := "a" }),
    .edit (.addColumn ⟨1⟩ { name := "id", rank := some 0 }),
    .edit (.addTable { name := "b" }),
    .edit (.addColumn ⟨2⟩ { name := "a_id" }),
    .edit (.createRelationship { name := "ab", parent := some ⟨1⟩, child := some ⟨2⟩ }),
    .edit (.addMapping ⟨1⟩ ⟨1⟩ ⟨2⟩),
    .edit (.setIdentifying ⟨1⟩ true),
    .edit (.addExportedKey ⟨1⟩ ⟨1⟩),
    .edit (.addImportedKey ⟨2⟩ ⟨1⟩)]

/-- The exceptions are there: registering passes over what is mapped, so it is not true of all runs
that the child columns of live identifying relationships are key columns. -/
theorem not_always_keyed_registering : ¬ ∀ (config : Config) (moves : List Move) (s : Schema),
    s = ((start config).run moves).schema → (start config).sparesMapped moves = true →
    ∀ r ch m, s.isLive r = true → s.isIdentifying r = true → s.child? r = some ch →
      m ∈ s.mappingsOf r → m.fk ∈ s.primaryKey ch := by
  intro h
  have hkey := h {} registeringMoves _ rfl (by decide +kernel) ⟨1⟩ ⟨2⟩ ⟨⟨1⟩, ⟨2⟩⟩
    (by decide +kernel) (by decide +kernel) (by decide +kernel) (by decide +kernel)
  have hout : (⟨2⟩ : ColumnId) ∉ ((start {}).run registeringMoves).schema.primaryKey ⟨2⟩ := by
    decide +kernel
  exact hout hkey

end Moment

end KeyedSchema
