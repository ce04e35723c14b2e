import KeyedSchema.Proofs.Switches
import KeyedSchema.Proofs.Tending
import KeyedSchema.Script.Replay

/-!
# Scripting — what every script keeps

A script only adds, renames, ranks, connects and removes. It has no step that sets a switch of a
table, takes out a mapping or registers a relationship by hand. So every table of a schema that a
script has built has the switches of the configuration and is outside of secondary-change mode, and
with cascades enabled the schema is upheld: its relationships may miss columns that they were not
asked to map, but what they map is in the key of their parent, in key order.

- `StepAction.Ends` : what a step ends in, as for edits;
- `Scripted`        : what the steps keep.
-/

namespace KeyedSchema

/-! ## What a step ends in -/

namespace StepAction

variable {α β : Type} {Q Q' : α → Schema → Prop} {E E' : StepFault → Schema → Prop} {s s' : Schema}

/-- Whether what a step does ends in a yield that satisfies `Q` or in a fault that satisfies `E`. -/
def Ends (x : StepAction α) (Q : α → Schema → Prop) (E : StepFault → Schema → Prop) (s : Schema) :
    Prop :=
  match x.run s with
  | (.ok a, s') => Q a s'
  | (.error e, s') => E e s'

theorem Ends.mono {x : StepAction α} (h : x.Ends Q E s) (hQ : ∀ a s', Q a s' → Q' a s')
    (hE : ∀ e s', E e s' → E' e s') : x.Ends Q' E' s := by
  unfold Ends at h ⊢
  split
  · rename_i hx
    rw [hx] at h
    exact hQ _ _ h
  · rename_i hx
    rw [hx] at h
    exact hE _ _ h

theorem Ends.imp {x : StepAction α} (h : x.Ends Q E s) (hQ : ∀ a s', Q a s' → Q' a s') :
    x.Ends Q' E s :=
  h.mono hQ fun _ _ he => he

@[simp] theorem ends_pure (a : α) : (pure a : StepAction α).Ends Q E s ↔ Q a s := Iff.rfl

@[simp] theorem ends_throw (e : StepFault) : (throw e : StepAction α).Ends Q E s ↔ E e s := Iff.rfl

@[simp] theorem ends_bind (x : StepAction β) (f : β → StepAction α) :
    (x >>= f).Ends Q E s ↔ x.Ends (fun b s' => (f b).Ends Q E s') E s := by
  unfold Ends
  simp only [bind, ExceptT.bind, ExceptT.mk, ExceptT.run, StateT.bind]
  rcases x s with ⟨b | b, s'⟩
  · rfl
  · rfl

@[simp] theorem ends_discard (x : StepAction α) {Q : Unit → Schema → Prop} :
    (discard x).Ends Q E s ↔ x.Ends (fun _ s' => Q () s') E s := by
  unfold discard
  rw [show Functor.mapConst PUnit.unit x = x >>= fun _ => pure () from rfl, ends_bind]
  rfl

@[simp] theorem ends_get {Q : Schema → Schema → Prop} :
    (get : StepAction Schema).Ends Q E s ↔ Q s s := Iff.rfl

/-- An edit that is part of a step. -/
@[simp] theorem ends_ofEdit (code : String) (x : Edit α) :
    (ofEdit code x).Ends Q E s ↔ x.Ends Q (fun e => E (.refused code e)) s := by
  unfold Ends Edit.Ends Edit.perform ofEdit
  change (match (match x s with | (o, s') => (o.mapError (StepFault.refused code), s')) with
    | (.ok a, s') => Q a s'
    | (.error e, s') => E e s') ↔ _
  rcases h : x s with ⟨o | o, s'⟩
  · simp [ExceptT.run, h, Except.mapError]
  · simp [ExceptT.run, h, Except.mapError]

/-! ### Looking objects up by name -/

theorem ends_table (name : String) {Q : TableId → Schema → Prop} :
    (table name).Ends Q E s ↔ (∀ t, s.tableNamed? name = some t → Q t s) ∧
      (s.tableNamed? name = none → E (.unknownTable name) s) := by
  unfold table
  rw [ends_bind, ends_get]
  cases s.tableNamed? name <;> simp

theorem ends_table_of {name : String} {t : TableId} (h : s.tableNamed? name = some t)
    {Q : TableId → Schema → Prop} :
    (table name).Ends Q E s ↔ Q t s := by
  simp [ends_table, h]

theorem ends_column (tableName name : String) {Q : ColumnId → Schema → Prop} :
    (column tableName name).Ends Q E s ↔ (∀ t, s.tableNamed? tableName = some t →
      (∀ c, s.columnNamed? t name = some c → Q c s) ∧
        (s.columnNamed? t name = none → E (.unknownColumn tableName name) s)) ∧
      (s.tableNamed? tableName = none → E (.unknownTable tableName) s) := by
  unfold column
  rw [ends_bind, ends_table]
  refine and_congr (forall₂_congr fun t _ => ?_) Iff.rfl
  rw [ends_bind, ends_get]
  cases s.columnNamed? t name <;> simp

theorem ends_column_of {tableName name : String} {t : TableId} {c : ColumnId}
    (h : s.tableNamed? tableName = some t) (hc : s.columnNamed? t name = some c)
    {Q : ColumnId → Schema → Prop} :
    (column tableName name).Ends Q E s ↔ Q c s := by
  simp [ends_column, h, hc]

theorem ends_relationship (name : String) {Q : RelationshipId → Schema → Prop} :
    (relationship name).Ends Q E s ↔ (∀ r, s.relationshipNamed? name = some r → Q r s) ∧
      (s.relationshipNamed? name = none → E (.unknownRelationship name) s) := by
  unfold relationship
  rw [ends_bind, ends_get]
  cases s.relationshipNamed? name <;> simp

/-! ### Loops -/

@[simp] theorem ends_forM_nil (f : β → StepAction Unit) {Q : Unit → Schema → Prop} :
    (([] : List β).forM f).Ends Q E s ↔ Q () s := Iff.rfl

@[simp] theorem ends_forM_cons (b : β) (bs : List β) (f : β → StepAction Unit)
    {Q : Unit → Schema → Prop} :
    ((b :: bs).forM f).Ends Q E s ↔ (f b).Ends (fun _ s' => (bs.forM f).Ends Q E s') E s := by
  change (f b >>= fun _ => bs.forM f).Ends Q E s ↔ _
  exact ends_bind _ _

/-- A loop keeps what each of its rounds keeps. -/
theorem Ends.forM {f : β → StepAction Unit} {P : Schema → Prop}
    (round : ∀ b s, P s → (f b).Ends (fun _ => P) E s) (bs : List β) (h : P s) :
    (bs.forM f).Ends (fun _ => P) E s := by
  induction bs generalizing s with
  | nil => exact h
  | cons b bs ih =>
      rw [ends_forM_cons]
      exact (round b s h).imp fun _ _ h' => ih h'

theorem Ends.mapM {γ : Type} {f : β → StepAction γ} {P : Schema → Prop}
    (round : ∀ b s, P s → (f b).Ends (fun _ => P) E s) (bs : List β) (h : P s) :
    (bs.mapM f).Ends (fun _ => P) E s := by
  induction bs generalizing s with
  | nil => exact h
  | cons b bs ih =>
      rw [List.mapM_cons, ends_bind]
      refine (round b s h).imp fun c s₁ h₁ => ?_
      rw [ends_bind]
      exact (ih h₁).imp fun _ _ h₂ => h₂

/-- A list of look-ups that all find something changes nothing. -/
theorem ends_mapM_of {γ : Type} {f : β → StepAction γ} {R : β → γ → Prop} {bs : List β}
    {cs : List γ}
    (hall : List.Forall₂ R bs cs)
    (hf : ∀ b c, R b c → (f b).Ends (fun c' s' => c' = c ∧ s' = s) (fun _ _ => False) s) :
    (bs.mapM f).Ends (fun cs' s' => cs' = cs ∧ s' = s) (fun _ _ => False) s := by
  induction hall with
  | nil => exact ⟨rfl, rfl⟩
  | @cons b c bs cs hbc _ ih =>
      rw [List.mapM_cons, ends_bind]
      refine (hf b c hbc).imp ?_
      rintro _ _ ⟨rfl, rfl⟩
      rw [ends_bind]
      refine ih.imp ?_
      rintro _ _ ⟨rfl, rfl⟩
      exact ⟨rfl, rfl⟩

end StepAction

namespace Schema

variable {config : Config} {s s' s'' : Schema} {t p ch : TableId} {r : RelationshipId}

/-! ## Tables -/

/-- Whether a schema has the configuration of another one, and no tables but those of it. -/
structure Retains (s s' : Schema) : Prop where
  config : s'.config = s.config
  table : ∀ t, s'.tables.contains t = true → s.tables.contains t = true

theorem Retains.trans (h : Retains s s') (h' : Retains s' s'') : Retains s s'' :=
  ⟨h'.config.trans h.config, fun t ht => h.table t (h'.table t ht)⟩

theorem SameFrame.retains (h : SameFrame s s') : Retains s s' :=
  ⟨h.config, fun t ht => (h.contains_table t).symm.trans ht⟩

theorem SameShape.retains (h : SameShape s s') : Retains s s' :=
  ⟨h.config, fun t ht => (h.contains_table t).symm.trans ht⟩

theorem Replaces.retains {rel : Option Relationship} (h : Replaces r rel s s') : Retains s s' :=
  ⟨h.config, fun _ ht => h.tables ▸ ht⟩

theorem AmidEvents.retains {R : Schema → Schema → Prop} (h : AmidEvents R s s')
    (hR : ∀ s₁ s₂, SameObjects s s₁ → R s₁ s₂ → Retains s₁ s₂) : Retains s s' := by
  obtain ⟨s₁, s₂, h₁, hr, h₂⟩ := h
  exact (h₁.sameFrame.retains.trans (hR s₁ s₂ h₁ hr)).trans h₂.sameFrame.retains

theorem coversDismissal_retains : CoversDismissal Retains where
  refl _ := ⟨rfl, fun _ ht => ht⟩
  trans := Retains.trans
  unlink hs r := by
    have hu := hs.unlinked r
    refine ⟨hu.config, fun t ht => ?_⟩
    rwa [← Roster.mem_keys_iff, hu.tableKeys, Roster.mem_keys_iff] at ht
  check hs hw := (hs.prune hw).2.frame.retains
  drop _ := (replaces_dropRelationship _ _).retains

theorem Removes.retains (h : Removes t s s') (hs : s.Sound) : Retains s s' := by
  obtain ⟨-, s₁, i, hchain, ho⟩ := h
  have herased : Retains s₁ (s₁.eraseTable t i) := by
    refine ⟨(eraseTable_objects t i s₁).config, fun t' ht' => ?_⟩
    unfold Roster.contains at ht' ⊢
    rw [get?_eraseTable] at ht'
    split at ht'
    · exact absurd ht' Bool.false_ne_true
    · exact ht'
  exact ((coversDismissal_retains.chain hs hchain).trans herased).trans ho.sameFrame.retains

theorem Wires.retains {auto : Bool} (h : Wires r p ch auto s s') : Retains s s' := by
  obtain ⟨s₁, hc, hw⟩ := h.connected
  have hconnected : Retains s s₁ := by
    refine ⟨hc.config, fun t ht => ?_⟩
    rwa [← Roster.mem_keys_iff, hc.tableKeys, Roster.mem_keys_iff] at ht
  exact hconnected.trans (sameFrame_of_grow hw).retains

theorem Attaches.retains {auto : Bool} (h : Attaches r p ch auto s s') : Retains s s' := by
  have hwired := (sameShape_suspended ch s).retains.trans h.wires.retains
  rcases h.settles with ⟨-, rfl⟩ | ⟨-, hexits⟩
  · exact hwired
  · exact (hwired.trans (sameShape_settled ch _).retains).trans
      (hexits.sameFrame h.wires.sound).retains

/-! ## What scripts keep -/

/-- Whether a schema is in the state that scripts leave: each table has the switches of the
configuration, and with cascades enabled everything that is mapped follows the keys. -/
structure Scripted (config : Config) (s : Schema) : Prop where
  sound : s.Sound
  acyclic : s.Acyclic
  config_eq : s.config = config
  uniform : ∀ t switches, s.switchesOf t = some switches → switches = (config.magicByDefault, false)
  upheld : config.magicByDefault = true → Upheld (fun _ _ => True) s

theorem scripted_ofConfig (config : Config) : Scripted config (ofConfig config) :=
  ⟨sound_ofConfig config, acyclic_ofConfig config, rfl,
    fun _ _ h => absurd h (Option.some_ne_none _).symm, fun h => upheld_ofConfig h⟩

theorem Scripted.switchesOf (h : Scripted config s) (ht : s.tables.contains t = true) :
    s.switchesOf t = some (config.magicByDefault, false) := by
  obtain ⟨tbl, htbl⟩ := (Roster.contains_iff _ _).mp ht
  have hswitches : s.switchesOf t = some tbl.switches := congrArg (Option.map Table.switches) htbl
  rw [hswitches, h.uniform t _ hswitches]

theorem Scripted.sameObjects (h : Scripted config s) (ho : SameObjects s s') :
    Scripted config s' where
  sound := h.sound.of_sameObjects ho
  acyclic := h.acyclic.inherits ho.sameFrame.inherits
  config_eq := ho.config.trans h.config_eq
  uniform t switches ht := h.uniform t switches ((ho.sameFrame.switchesOf t).symm.trans ht)
  upheld hmagic := (h.upheld hmagic).sameObjects ho

end Schema

namespace Op

open Schema

variable {config : Config} {s s' : Schema} {op : Op}

/-- Whether a script has a step that carries out the operation. -/
def isScripted : Op → Bool
  | addTable _ | removeTable _ | addColumn _ _ | removeColumn _ | setColumnName _ _
  | setPrimaryKeySeq _ _ | createRelationship _ | removeRelationship _ | addMapping _ _ _
  | attachRelationship _ _ _ _ => true
  | _ => false

theorem upholds_of_isScripted (hop : op.isScripted = true) : op.Upholds fun _ _ => True := by
  cases op
  case attachRelationship r p ch auto =>
    cases auto with
    | true => rfl
    | false => exact fun _ => trivial
  all_goals first | rfl | exact absurd hop Bool.false_ne_true

theorem isToggle_of_isScripted (hop : op.isScripted = true) : op.isToggle = false := by
  cases op
  case setSecondaryChangeMode t on => exact absurd hop Bool.false_ne_true
  case setMagicEnabled t on => exact absurd hop Bool.false_ne_true
  all_goals rfl

/-- Tables come by one operation only. -/
theorem Does.retains (h : op.Does s s') (hs : s.Sound) (hop : op.isScripted = true)
    (htable : ∀ tbl, op ≠ .addTable tbl) : Retains s s' := by
  cases op
  case addTable tbl => exact absurd rfl (htable tbl)
  case removeTable t =>
    exact AmidEvents.retains h fun _ _ ho h => h.retains (hs.of_sameObjects ho)
  case addColumn t col =>
    obtain ⟨i, h⟩ := h
    exact h.retains fun _ _ _ h => (sameFrame_of_inserts h).retains
  case removeColumn c =>
    exact h.2.2.retains fun _ _ ho h => ((hs.of_sameObjects ho).prune h).2.frame.retains
  case setPrimaryKeySeq c rank =>
    cases rank with
    | none => exact h.2.retains fun _ _ ho h => ((hs.of_sameObjects ho).prune h).2.frame.retains
    | some k => exact h.2.retains fun _ _ _ h => (sameFrame_of_places h).retains
  case setColumnName c name => exact (SameSkeleton.shape h).retains
  case createRelationship rel =>
    obtain ⟨-, -, rfl⟩ := h
    exact (replaces_storeRelationship _ s).retains
  case removeRelationship r =>
    obtain ⟨-, h⟩ | ⟨-, rfl⟩ := h
    · exact h.retains fun _ _ ho h => coversDismissal_retains.detaches (hs.of_sameObjects ho) h
    · exact coversDismissal_retains.discard hs r
  case addMapping r pk fk => exact AmidEvents.retains h fun _ _ _ h => (sameFrame_of_maps h).retains
  case attachRelationship r p ch auto =>
    exact h.attaches.retains fun _ _ _ h => h.2.retains
  all_goals exact absurd hop Bool.false_ne_true

theorem Does.config_eq (h : op.Does s s') (hs : s.Sound) (hop : op.isScripted = true) :
    s'.config = s.config := by
  by_cases htable : ∃ tbl, op = .addTable tbl
  · obtain ⟨tbl, rfl⟩ := htable
    obtain rfl := h
    simp [appendTable]
  · exact (h.retains hs hop fun tbl heq => htable ⟨tbl, heq⟩).config

/-- New tables have the switches of the configuration, and the others keep theirs. -/
theorem Does.switchesOf (h : op.Does s s') (hs : s.Sound) (hop : op.isScripted = true)
    (hkeeps : KeepsSwitches s s') {t : TableId} {switches : Bool × Bool}
    (ht : s'.switchesOf t = some switches) :
    s.switchesOf t = some switches ∨ switches = (s.config.magicByDefault, false) := by
  by_cases htable : ∃ tbl, op = .addTable tbl
  · obtain ⟨tbl, rfl⟩ := htable
    obtain rfl := h
    unfold Schema.switchesOf at ht
    rw [get?_appendTable] at ht
    split at ht
    · exact .inr (Option.some.inj ht).symm
    · exact .inl ht
  · have hretains := h.retains hs hop fun tbl heq => htable ⟨tbl, heq⟩
    obtain ⟨tbl, htbl, -⟩ := Option.map_eq_some_iff.mp ht
    have hstored := hs.table_fresh t (hretains.table t (Roster.contains_of_get? htbl))
    rcases hkeeps.switchesOf t hstored with hgone | hsame
    · exact absurd (hgone.symm.trans ht) (Option.some_ne_none switches).symm
    · exact .inl (hsame.symm.trans ht)

/-- An operation of a script that is not refused keeps what scripts keep. -/
theorem scripted_edit (h : Scripted config s) (hop : op.isScripted = true) :
    op.edit.Ends (fun _ s' => Scripted config s') (fun _ _ => True) s := by
  have hends := (edit_ends h.sound op).and (steady_edit h.sound (isToggle_of_isScripted hop))
  refine hends.mono (fun reply s' hend => ?_) fun _ _ _ => trivial
  obtain ⟨hdoes, hsteady⟩ : op.Does s s' ∧ KeepsSwitches s s' := hend
  refine ⟨hdoes.sound h.sound, hdoes.acyclic h.sound h.acyclic,
    (hdoes.config_eq h.sound hop).trans h.config_eq, fun t switches ht => ?_, fun hmagic =>
    hdoes.upheld (upholds_of_isScripted hop) (h.upheld hmagic) h.acyclic⟩
  rcases hdoes.switchesOf h.sound hop hsteady ht with hold | hnew
  · exact h.uniform t switches hold
  · rw [hnew, h.config_eq]

end Op

/-! ## Steps and runs -/

namespace StepAction

open Schema

variable {α : Type} {config : Config} {s : Schema}

/-- An edit that is part of a step keeps what scripts keep. -/
theorem scripted_ofEdit {x : Edit α} {f : α → Reply} {code : String} (h : Scripted config s)
    (op : Op) (hop : op.isScripted = true) (hedit : op.edit = f <$> x) :
    (ofEdit code x).Ends (fun _ s' => Scripted config s') (fun _ _ => True) s := by
  have hends := Op.scripted_edit h hop
  rw [hedit, Edit.ends_map] at hends
  rwa [ends_ofEdit]

theorem scripted_createRelationship (h : Scripted config s) (rel : RelationshipSpec)
    (code : String) : (createRelationship rel code).Ends (fun _ s' => Scripted config s')
      (fun _ _ => True) s := by
  unfold createRelationship
  simp only [ends_bind, ends_table]
  refine ⟨fun p _ => ⟨fun ch _ => ?_, fun _ => trivial⟩, fun _ => trivial⟩
  refine (Ends.mapM (fun names s₁ h₁ => ?_) rel.mappings h).imp fun pairs s₁ h₁ => ?_
  · simp only [ends_bind, ends_column, ends_pure]
    exact ⟨fun _ _ => ⟨fun _ _ => ⟨fun _ _ => ⟨fun _ _ => h₁, fun _ => trivial⟩, fun _ => trivial⟩,
      fun _ => trivial⟩, fun _ => trivial⟩
  · rw [ends_get]
    refine (scripted_ofEdit h₁ (.createRelationship _) rfl rfl).imp fun r s₂ h₂ => ?_
    refine (scripted_ofEdit h₂ (.attachRelationship r p ch _) rfl rfl).imp fun _ s₃ h₃ => ?_
    exact Ends.forM (fun pair s₄ h₄ => scripted_ofEdit h₄ (.addMapping r pair.1 pair.2) rfl rfl)
      pairs h₃

/-- What a step does keeps what scripts keep. -/
theorem scripted_ofStep (h : Scripted config s) (step : Step) :
    (ofStep step).Ends (fun _ s' => Scripted config s') (fun _ _ => True) s := by
  cases step with
  | createTable name columns =>
      unfold ofStep
      rw [ends_bind]
      refine (scripted_ofEdit h (.addTable { name }) rfl rfl).imp fun t s₁ h₁ => ?_
      refine Ends.forM (fun spec s₂ h₂ => ?_) columns h₁
      rw [ends_discard]
      exact scripted_ofEdit h₂ (.addColumn t spec.toColumn) rfl rfl
  | addColumn t spec =>
      unfold ofStep
      simp only [ends_bind, ends_table, ends_discard]
      exact ⟨fun t _ => scripted_ofEdit h (.addColumn t spec.toColumn) rfl rfl, fun _ => trivial⟩
  | setPrimaryKey t c rank =>
      unfold ofStep
      simp only [ends_bind, ends_column]
      exact ⟨fun t _ => ⟨fun c _ => scripted_ofEdit h (.setPrimaryKeySeq c rank) rfl rfl,
        fun _ => trivial⟩, fun _ => trivial⟩
  | removeColumn t c =>
      unfold ofStep
      simp only [ends_bind, ends_column, ends_discard]
      exact ⟨fun t _ => ⟨fun c _ => scripted_ofEdit h (.removeColumn c) rfl rfl,
        fun _ => trivial⟩, fun _ => trivial⟩
  | renameColumn t c name =>
      unfold ofStep
      simp only [ends_bind, ends_column]
      exact ⟨fun t _ => ⟨fun c _ => scripted_ofEdit h (.setColumnName c name) rfl rfl,
        fun _ => trivial⟩, fun _ => trivial⟩
  | createRelationship rel => exact scripted_createRelationship h rel _
  | removeRelationship name =>
      unfold ofStep
      simp only [ends_bind, ends_relationship, ends_discard]
      exact ⟨fun r _ => scripted_ofEdit h (.removeRelationship r) rfl rfl, fun _ => trivial⟩
  | removeTable name =>
      unfold ofStep
      simp only [ends_bind, ends_table, ends_discard]
      exact ⟨fun t _ => scripted_ofEdit h (.removeTable t) rfl rfl, fun _ => trivial⟩

end StepAction

/-- What a step ends in, if it does not fail. -/
theorem StepAction.Ends.of_replay {step : Step} {s s' : Schema} {Q : Unit → Schema → Prop}
    {E : StepFault → Schema → Prop} (h : (StepAction.ofStep step).Ends Q E s)
    (hok : step.replay s = .ok s') : Q () s' := by
  unfold Step.replay at hok
  unfold StepAction.Ends at h
  split at h
  · rename_i hrun
    rw [hrun] at hok
    exact Except.ok.inj hok ▸ h
  · rename_i hrun
    rw [hrun] at hok
    cases hok

theorem Schema.Scripted.replayFrom {config : Config} {s s' : Schema} (h : Scripted config s)
    {steps : List Step} {n : Nat} (hok : KeyedSchema.replayFrom n s steps = .ok s') :
    Scripted config s' := by
  induction steps generalizing s n with
  | nil => exact Except.ok.inj hok ▸ h
  | cons step steps ih =>
      unfold KeyedSchema.replayFrom at hok
      split at hok
      · rename_i s₁ hstep
        exact ih ((StepAction.scripted_ofStep h step).of_replay hstep) hok
      · cases hok

/-- Every schema that a script builds is in the state that scripts leave. -/
theorem Schema.scripted_of_replay {config : Config} {steps : List Step} {s : Schema}
    (hok : replay config steps = .ok s) : Scripted config s :=
  (Schema.scripted_ofConfig config).replayFrom hok

end KeyedSchema
