import KeyedSchema.Proofs.Descent

/-!
# Completion — edits of sound and acyclic schemas stay within their bounds

Every edit that promotes columns is followed to the places where it does so. There the schema is
sound, and it has the links of an acyclic one, so that the promotions agree with those of the
standard; the parts of an edit that remove, rename or describe columns agree on any schema.
-/

namespace KeyedSchema

namespace Edit

open Schema

variable {s s₀ : Schema} {t p ch : TableId} {c pk fk : ColumnId} {r : RelationshipId}
  {key : List ColumnId}

/-! ## Columns that join a key -/

/-- In an acyclic schema a relationship leads to no more tables than there are. -/
theorem leads_of_acyclic (hs : s.Sound) (ha : s.Acyclic) (r : RelationshipId) :
    Leads s r s.tables.size :=
  fun _ ch hch => hs.shallow ha (hs.child_stored r ch hch) (Nat.le_refl _)

/-- What mapping the columns of a key needs and keeps. A column that is gone does not come back. -/
structure Mappable (key : List ColumnId) (p : TableId) (s₀ s : Schema) : Prop where
  sound : s.Sound
  frame : SameFrame s₀ s
  given : ∀ x ∈ key, x.val ≤ s.lastColumn
  owner : ∀ x ∈ key, s.columns.contains x = true → s.owner? x = some p

theorem Mappable.grows {s' : Schema} (h : Mappable key p s₀ s) (hs' : s'.Sound) (hg : Grows s s') :
    Mappable key p s₀ s' where
  sound := hs'
  frame := h.frame.trans hg.frame
  given x hx := Nat.le_trans (h.given x hx) hg.lastColumn
  owner x hx hx' := by
    rcases hg.fresh x hx' with hstored | hlt
    · exact (hg.owner? hstored).trans (h.owner x hx hstored)
    · exact absurd (h.given x hx) (Nat.not_le_of_lt hlt)

variable [Beyond]

/-- Promoting a stored column agrees on every schema that has the frame of an acyclic one. -/
theorem promote_agrees (hs₀ : s₀.Sound) (ha : s₀.Acyclic) (hs : s.Sound) (hf : SameFrame s₀ s)
    (hc : s.columns.contains c = true) : Agrees (promote c) (@promote .standard c) s := by
  obtain ⟨t, ht⟩ := hs.owned c hc
  have htbl : s₀.tables.contains t = true :=
    (hf.contains_table t).symm.trans (hs.contains_table_of_owner ht)
  exact promote_alike s₀ s c t hs hf ht (hs₀.shallow ha htbl (Nat.le_refl _))

theorem afterRankChange_promote_agrees (hs₀ : s₀.Sound) (ha : s₀.Acyclic) (hs : s.Sound)
    (hf : SameFrame s₀ s) (hc : s.columns.contains c = true) (old new : Option Nat) :
    Agrees (afterRankChange promote c old new)
      (@afterRankChange .standard (@promote .standard) c old new) s := by
  obtain ⟨t, ht⟩ := hs.owned c hc
  have htbl : s₀.tables.contains t = true :=
    (hf.contains_table t).symm.trans (hs.contains_table_of_owner ht)
  rw [afterRankChange_eq]
  exact Edit.afterRankChange_agrees (promote_alike s₀) (promotes_promote s₀) hs hf ht
    (hs₀.shallow ha htbl (Nat.le_succ _)) old new

theorem setRank_agrees (hs : s.Sound) (ha : s.Acyclic) (hc : s.columns.contains c = true)
    (rank : Option Nat) :
    Agrees (setRank promote c rank) (@setRank .standard (@promote .standard) c rank) s := by
  unfold setRank
  rw [agrees_bind, ends_column]
  refine ⟨fun col _ => ?_, fun _ => trivial⟩
  dsimp only
  split
  · have hre := reranks_changeRank c col.rank rank s
    rw [agrees_bind, ends_change]
    exact afterRankChange_promote_agrees hs ha (hre.sound hs) hre.sameFrame
      ((hre.sameShape.contains_column c).trans hc) _ _
  · exact .refl _ _

theorem insertColumnAt_agrees (hs : s.Sound) (ha : s.Acyclic) {i : Nat}
    (hi : i ≤ (s.columnsOf t).length) (col : Column) :
    Agrees (insertColumnAt t i col) (@insertColumnAt .standard t i col) s := by
  unfold insertColumnAt placeColumn
  simp only [agrees_bind, ends_bind, ends_ask, ends_discard, ends_table, ends_change, ends_pure]
  refine ⟨fun tbl htbl => ?_, fun _ => trivial⟩
  have hs₁ := hs.placeColumn (Roster.contains_of_get? htbl) hi col
  split
  · refine Agrees.bind_left ?_ _
    refine afterRankChange_promote_agrees hs ha hs₁ (sameFrame_placeColumn t i col s) ?_ _ _
    rw [contains_placeColumn]
    simp
  · exact .refl _ _

theorem insertColumn_agrees (hs : s.Sound) (ha : s.Acyclic) (t : TableId) (i : Nat) (col : Column) :
    Agrees (insertColumn t i col) (@insertColumn .standard t i col) s := by
  unfold insertColumn
  rw [agrees_bind, ends_table]
  refine ⟨fun tbl htbl => ?_, fun _ => trivial⟩
  have hlen : (s.columnsOf t).length = tbl.columns.length := by simp [columnsOf, htbl]
  dsimp only
  split
  · exact agrees_throw ..
  · rename_i hi
    rw [agrees_bind, ends_ask]
    refine Agrees.compoundIf _ _ fun s₁ h₁ => ?_
    refine insertColumnAt_agrees (hs.of_sameObjects h₁) (ha.inherits h₁.sameFrame.inherits) ?_ col
    unfold columnsOf at hlen ⊢
    rw [h₁.tables, hlen]
    omega

theorem addColumn_agrees (hs : s.Sound) (ha : s.Acyclic) (t : TableId) (col : Column) :
    Agrees (addColumn t col) (@addColumn .standard t col) s := by
  unfold addColumn
  rw [agrees_bind, ends_table]
  exact ⟨fun tbl _ => insertColumn_agrees hs ha t _ col, fun _ => trivial⟩

theorem setPrimaryKeySeq_agrees (hs : s.Sound) (ha : s.Acyclic) (c : ColumnId) (rank : Option Nat) :
    Agrees (setPrimaryKeySeq c rank) (@setPrimaryKeySeq .standard c rank) s := by
  unfold setPrimaryKeySeq
  simp only [agrees_bind, ends_ownerOf, ends_ask, ends_column]
  refine ⟨fun t _ => ⟨fun col hcol => Agrees.compoundIf _ _ fun s₁ h₁ => ?_, fun _ => trivial⟩,
    fun _ => trivial⟩
  exact setRank_agrees (hs.of_sameObjects h₁) (ha.inherits h₁.sameFrame.inherits)
    (h₁.columns ▸ Roster.contains_of_get? hcol) rank

/-! ## Mapping -/

theorem pushMapping_agrees (hs : s.Sound) (ha : s.Acyclic) (hp : s.parent? r = some p)
    (hch : s.child? r = some ch) (hpk : s.owner? pk = some p) (hfk : s.owner? fk = some ch)
    (hnew : pk ∉ (s.mappingsOf r).map Mapping.pk) (joinKey : Bool) :
    Agrees (pushMapping r ⟨pk, fk⟩ joinKey) (@pushMapping .standard r ⟨pk, fk⟩ joinKey) s := by
  unfold pushMapping
  simp only [agrees_bind, ends_discard, ends_relationship, ends_change]
  refine ⟨fun rel _ => ?_, fun _ => trivial⟩
  split
  · refine Agrees.bind_left ?_ _
    refine promote_agrees hs ha (hs.appendMapping hp hch hpk hfk hnew)
      (sameFrame_appendMapping r ⟨pk, fk⟩ s) ?_
    rw [columns_appendMapping]
    exact contains_of_owner? hfk
  · exact .refl _ _

theorem addMapping_agrees (hs : s.Sound) (ha : s.Acyclic) (r : RelationshipId) (pk fk : ColumnId) :
    Agrees (addMapping r pk fk) (@addMapping .standard r pk fk) s := by
  unfold addMapping
  rw [agrees_bind, ends_relationship]
  refine ⟨fun rel hrel => ?_, fun _ => trivial⟩
  split
  · rename_i p ch hp hch
    have hp' : s.parent? r = some p := by simp [parent?, hrel, hp]
    have hch' : s.child? r = some ch := by simp [child?, hrel, hch]
    simp only [agrees_bind, ends_discard]
    refine ends_requireKeyColumn p pk (fun key _ hpk _ => ?_) fun _ => trivial
    rw [ends_column]
    refine ⟨fun col hcol => ?_, fun _ => trivial⟩
    split
    · exact agrees_throw ..
    · rename_i hfk
      have hfk' : s.owner? fk = some ch := (owner?_of_get? hcol).trans (not_not.mp hfk)
      split
      · exact agrees_throw ..
      · rename_i hnew
        have hnew' : pk ∉ (s.mappingsOf r).map Mapping.pk := by
          simpa [mappingsOf, hrel, Relationship.mapsFrom] using hnew
        rw [agrees_bind, ends_ask]
        refine Agrees.compoundIf _ _ fun s₁ h₁ => ?_
        obtain ⟨held, raised, published, origins, rfl⟩ := h₁.exists_eq
        exact pushMapping_agrees (hs.of_sameObjects h₁) (ha.inherits h₁.sameFrame.inherits) hp' hch'
          hpk hfk' hnew' _
  · exact .refl _ _

theorem mapPrimaryKeyColumn_agrees (hs : s.Sound) (ha : s.Acyclic) (r : RelationshipId)
    (pk : ColumnId) :
    Agrees (mapPrimaryKeyColumn r pk) (@mapPrimaryKeyColumn .standard r pk) s := by
  unfold mapPrimaryKeyColumn
  simp only [agrees_bind, ends_relationship, ends_get]
  refine ⟨fun rel hrel => ?_, fun _ => trivial⟩
  split
  · exact agrees_throw ..
  · rename_i hl
    have hl' : s.isLive r = true := by simpa using hl
    obtain ⟨p, ch, hp, hch, -⟩ := isLive_iff.mp hl'
    have hrelp : rel.parent = some p := by simpa [parent?, hrel] using hp
    simp only [agrees_bind, hrelp, ends_require_some]
    refine ends_requireKeyColumn p pk (fun key _ hpk _ => ?_) fun _ => trivial
    split
    · exact agrees_throw ..
    · rename_i hnew
      have hnew' : pk ∉ (s.mappingsOf r).map Mapping.pk := by
        simpa [mappingsOf, hrel, Relationship.mapsFrom] using hnew
      have hready : (Grow.map s.tables.size r pk).Ready s := ⟨p, ch, hp, hch, hpk⟩
      refine Agrees.compound _ ?_
      -- between the signals the objects are those of `s`
      have ho := SameObjects.signal (.compoundEditStarted s!"map key column {key.name}") s
      exact adoptOrCreate_agrees (promote_alike s) (hs.of_sameObjects ho) ho.sameFrame hready hnew'
        (leads_of_acyclic hs ha r)

/-! ## The identifying flag -/

/-- The mapped columns of a relationship with a new flag join the key of the child or leave it. -/
theorem forM_mark_agrees (hs : s.Sound) (ha : s.Acyclic) (new : Bool) (r : RelationshipId)
    (fks : List ColumnId) :
    Agrees
      (fks.forM fun fk => get >>= fun s : Schema =>
        if s.columns.contains fk = true then
          if new = true then promote fk
          else if (!s.isHeldInKey fk r) = true then setRank promote fk none else pure ()
        else pure ())
      (fks.forM fun fk => get >>= fun s : Schema =>
        if s.columns.contains fk = true then
          if new = true then @promote .standard fk
          else if (!s.isHeldInKey fk r) = true then @setRank .standard (@promote .standard) fk none
          else pure ()
        else pure ()) s := by
  refine Agrees.forM (P := fun s₁ => s₁.Sound ∧ SameFrame s s₁) (fun fk _ s₁ h₁ => ?_) ⟨hs, .refl s⟩
  obtain ⟨hs₁, hf₁⟩ := h₁
  simp only [agrees_bind, ends_bind, ends_get]
  cases hfk : s₁.columns.contains fk with
  | false =>
      simp only [Bool.false_eq_true, if_false, Agrees.refl, true_and]
      exact ⟨hs₁, hf₁⟩
  | true =>
      cases new with
      | true =>
          simp only [if_true]
          refine ⟨promote_agrees hs ha hs₁ hf₁ hfk, ?_⟩
          refine (promotes_promote s s₁ fk hs₁ hf₁ hfk).total fun _ s₂ h₂ => ?_
          obtain ⟨hs₂, hg₂⟩ := hs₁.grow (by simpa using hfk) h₂
          exact ⟨hs₂, hf₁.trans hg₂.frame⟩
      | false =>
          simp only [if_true, Bool.false_eq_true, if_false]
          split
          · refine ⟨setRank_agrees hs₁ (ha.inherits hf₁.inherits) hfk none, ?_⟩
            refine (setRank_none_worksOff (@promote .standard) hs₁ hfk).total fun _ s₂ h₂ => ?_
            obtain ⟨hs₂, hsh₂⟩ := hs₁.prune h₂
            exact ⟨hs₂, hf₁.trans hsh₂.frame⟩
          · exact ⟨.refl _ _, hs₁, hf₁⟩

theorem setIdentifyingCascade_agrees (hs : s.Sound) (ha : s.Acyclic) (r : RelationshipId) (new : Bool)
    (hcycle : (new && !s.isIdentifying r && s.endsCloseCycle r (s.parent? r) (s.child? r)) = false) :
    Agrees (setIdentifyingCascade r new) (@setIdentifyingCascade .standard r new) s := by
  unfold setIdentifyingCascade
  simp only [agrees_bind, ends_relationship, ends_change, ends_raise, ends_get]
  refine ⟨fun rel hrel => ?_, fun _ => trivial⟩
  have hid : s.isIdentifying r = rel.identifying := by simp [isIdentifying, hrel]
  -- the schema with the new flag
  have hs₁ := hs.of_sameShape (sameShape_markIdentifying r rel.identifying new s)
  have ha₁ := ha.markIdentifying hs r hcycle
  rw [hid] at ha₁
  split
  · simp only [agrees_bind, ends_relationship]
    exact ⟨fun rel₁ _ => forM_mark_agrees hs₁ ha₁ new r _, fun _ => trivial⟩
  · exact .refl _ _

theorem setIdentifying_agrees (hs : s.Sound) (ha : s.Acyclic) (r : RelationshipId) (new : Bool) :
    Agrees (setIdentifying r new) (@setIdentifying .standard r new) s := by
  unfold setIdentifying
  simp only [agrees_bind, ends_relationship, ends_refuseCycle, ends_ask]
  refine ⟨fun rel hrel => ⟨fun hcycle => ?_, fun _ => trivial⟩, fun _ => trivial⟩
  refine Agrees.compoundIf _ _ fun s₁ h₁ => ?_
  obtain ⟨held, raised, published, origins, rfl⟩ := h₁.exists_eq
  refine setIdentifyingCascade_agrees (hs.of_sameObjects h₁) (ha.inherits h₁.sameFrame.inherits) r new ?_
  change (new && !s.isIdentifying r && s.endsCloseCycle r (s.parent? r) (s.child? r)) = false
  simpa [isIdentifying, parent?, child?, hrel] using hcycle

/-! ## Catching up -/

theorem forM_mapKey_agrees (hs₀ : s₀.Sound) (ha : s₀.Acyclic) (hp : s₀.parent? r = some p)
    (hch : s₀.child? r = some ch) (h : Mappable key p s₀ s) :
    Agrees (key.forM (mapIfMissing promote r))
      (key.forM (mapIfMissing (@promote .standard) r)) s := by
  refine Agrees.forM (P := Mappable key p s₀) (fun x hx s₁ h₁ => ?_) h
  have hp₁ := (h₁.frame.parent? r).trans hp
  have hch₁ := (h₁.frame.child? r).trans hch
  cases hstored : s₁.columns.contains x with
  | false =>
      exact ⟨mapIfMissing_agrees_of_gone hstored _ _,
        (mapIfMissing_lost h₁.sound hch₁ hstored).mono (fun _ _ h => h.elim) fun _ _ _ => trivial⟩
  | true =>
      have hready : (Grow.map s₀.tables.size r x).Ready s₁ :=
        ⟨p, ch, hp₁, hch₁, h₁.owner x hx hstored⟩
      refine ⟨mapIfMissing_agrees (promote_alike s₀) h₁.sound h₁.frame hready
        (leads_of_acyclic hs₀ ha r), ?_⟩
      refine (mapIfMissing_worksOff (promotes_promote s₀) h₁.sound h₁.frame hready).total
        fun _ s₂ h₂ => ?_
      obtain ⟨hs₂, hg₂⟩ := h₁.sound.grow (by simpa using hready) h₂
      exact h₁.grows hs₂ hg₂

theorem reconcileRelationship_agrees (hs : s.Sound) (ha : s.Acyclic) (hr : Reconcilable key p r s) :
    Agrees (reconcileRelationship key r) (@reconcileRelationship .standard key r) s := by
  obtain ⟨ch, hch⟩ := hr.child
  unfold reconcileRelationship
  rw [agrees_bind, ends_relationship]
  refine ⟨fun rel hrel => ?_, fun _ => trivial⟩
  have hlen : (s.mappingsOf r).length = rel.mappings.length := by simp [mappingsOf, hrel]
  refine Agrees.bind (dropStrayMappings_agrees key _ _ s (by omega) (Nat.le_refl _)) ?_
  refine (dropStrayMappings_worksOff key _ hs (Roster.contains_of_get? hrel) (by omega)).total
    fun _ s₁ hw₁ => ?_
  obtain ⟨hs₁, hsh₁⟩ := hs.prune hw₁
  refine Agrees.bind_left (forM_mapKey_agrees hs ha hr.parent hch ⟨hs₁, hsh₁.frame, ?_, ?_⟩) _
  · intro x hx
    rw [hsh₁.lastColumn]
    exact hs.column_fresh x (contains_of_owner? (hr.owner x hx))
  · intro x hx hx₁
    exact (hsh₁.owner? x hx₁).trans (hr.owner x hx)

theorem reconcileExported_agrees (hs : s.Sound) (ha : s.Acyclic) (t : TableId) :
    Agrees (reconcileExported t) (@reconcileExported .standard t) s := by
  unfold reconcileExported
  simp only [agrees_bind, ends_discard, ends_table, ends_get]
  refine ⟨fun tbl htbl => ?_, fun _ => trivial⟩
  rw [ends_normalizeKey_of hs (Roster.contains_of_get? htbl)]
  have hre := reranks_normalizeKey t none s
  have hs₁ := hre.sound hs
  refine Agrees.forM (P := fun s₂ => s₂.Sound ∧ SameFrame s s₂ ∧
    ∀ r ∈ (s.normalizeKey t none).liveExportsOf t,
      Reconcilable ((s.normalizeKey t none).primaryKey t) t r s₂) (fun r hr s₂ h₂ => ?_)
    ⟨hs₁, hre.sameFrame, fun r hr => hs₁.reconcilable hr⟩
  obtain ⟨hs₂, hf₂, hrs⟩ := h₂
  refine ⟨reconcileRelationship_agrees hs₂ (ha.inherits hf₂.inherits) (hrs r hr), ?_⟩
  refine (reconcileRelationship_ends hs₂ (hrs r hr)).mono (fun _ s₃ h₃ => ?_) fun _ _ _ => trivial
  obtain ⟨hs₃, hf₃, hkeep⟩ := h₃.reconciling hs₂ (hrs r hr)
  exact ⟨hs₃, hf₂.trans hf₃, fun r' hr' => hkeep r' (hrs r' hr')⟩

theorem exitSecondaryChange_agrees (hs : s.Sound) (ha : s.Acyclic) (t : TableId) :
    Agrees (exitSecondaryChange t) (@exitSecondaryChange .standard t) s := by
  unfold exitSecondaryChange
  rw [agrees_bind, ends_get]
  split
  · exact .refl _ _
  · rename_i tbl _
    have hs₁ := hs.of_sameShape (sameShape_settled t s)
    have ha₁ := ha.inherits (inherits_settled t s)
    simp only [agrees_bind, ends_change]
    split
    · rw [agrees_bind, ends_get]
      split
      · have hsignal := SameObjects.signal
          (.compoundEditStarted s!"update keys exported by {tbl.name}") (s.settled t)
        exact (reconcileExported_agrees (hs₁.of_sameObjects hsignal)
          (ha₁.inherits hsignal.sameFrame.inherits) t).compound _
      · exact .refl _ _
    · exact .refl _ _

theorem setSecondaryChangeMode_agrees (hs : s.Sound) (ha : s.Acyclic) (t : TableId) (on : Bool) :
    Agrees (setSecondaryChangeMode t on) (@setSecondaryChangeMode .standard t on) s := by
  unfold setSecondaryChangeMode
  split
  · exact .refl _ _
  · rw [agrees_bind, ends_table]
    refine ⟨fun tbl _ => ?_, fun _ => trivial⟩
    split
    · exact exitSecondaryChange_agrees hs ha t
    · exact .refl _ _

/-! ## Scopes -/

theorem leave_agrees (hs : s.Sound) (ha : s.Acyclic) (opened : OpenScope) :
    Agrees (leave opened) (@leave .standard opened) s := by
  unfold leave
  cases opened with
  | compound => exact .refl _ _
  | secondaryChange t entered =>
      dsimp only
      split
      · exact exitSecondaryChange_agrees hs ha t
      · exact .refl _ _
  | magicDisabled t previous => exact .refl _ _

/-- Edits within a scope agree if they do once it is open, and if closing it agrees where they
lead. -/
theorem agrees_within {α : Type} (scope : Scope) {x y : Edit α}
    (h : (enter scope).Ends (fun opened s₁ => Agrees x y s₁ ∧
      y.Ends (fun _ s₂ => Agrees (leave opened) (@leave .standard opened) s₂)
        (fun _ s₂ => Agrees (leave opened) (@leave .standard opened) s₂) s₁) (fun _ _ => True) s) :
    Agrees (within scope x) (@within _ .standard scope y) s := by
  unfold within
  rw [agrees_bind]
  refine h.imp fun opened s₁ h₁ => ?_
  refine Agrees.bind h₁.1.attempt ?_
  rw [ends_attempt]
  exact h₁.2.mono (fun _ _ hl => hl.attempt.bind_left _) fun _ _ hl => hl.attempt.bind_left _

/-! ## Attaching -/

/-- Mapping the key of the parent agrees once a relationship is connected. -/
theorem mapParentKey_agrees {s₁ : Schema} (ha : s₁.Acyclic) (hc : Connected r p ch s s₁)
    (auto : Bool) :
    Agrees
      (if auto = true then (discard (table p) >>= fun _ => get >>= fun s : Schema =>
        (s.primaryKey p).forM (mapIfMissing promote r)) else pure ())
      (if auto = true then (discard (table p) >>= fun _ => get >>= fun s : Schema =>
        (s.primaryKey p).forM (mapIfMissing (@promote .standard) r)) else pure ()) s₁ := by
  split
  · simp only [agrees_bind, ends_discard, ends_table, ends_get]
    refine ⟨fun tbl _ => ?_, fun _ => trivial⟩
    have howner : ∀ x ∈ s₁.primaryKey p, s₁.owner? x = some p :=
      fun x hx => (hc.sound.listed p x).mp (mem_primaryKey.mp hx).1
    exact forM_mapKey_agrees hc.sound ha hc.parent hc.child ⟨hc.sound, .refl s₁,
      fun x hx => hc.sound.column_fresh x (contains_of_owner? (howner x hx)),
      fun x hx _ => howner x hx⟩
  · exact .refl _ _

theorem attachSteps_agrees (hs : s.Sound) (ha : s.Acyclic) (h : Attachable r p ch s) (auto : Bool) :
    Agrees (attachSteps r p ch auto) (@attachSteps .standard r p ch auto) s := by
  obtain ⟨rel, hrel⟩ := (Roster.contains_iff _ _).mp h.stored
  have hm : rel.mappings = [] := by simpa [mappingsOf, hrel] using h.mappings
  have hid : s.isIdentifying r = rel.identifying := by simp [isIdentifying, hrel]
  have h₀ : Rewritten r rel s s := ⟨hs, rfl, .refl r s, rfl, rfl, hrel, hm⟩
  have hset := (h₀.setParent h.registered h.parent).setChild h.registered h.child
  -- registering connects the relationship, and the key is mapped after that
  have hsteps := (register_ends h hset rfl rfl hid).total (E := fun _ _ => True)
    fun _ _ hc => mapParentKey_agrees (ha.connected hs hc h.cycle) hc auto
  unfold attachSteps
  simp only [agrees_bind, ends_bind, ends_relationship_of hrel, agrees_changeIf] at hsteps ⊢
  exact hsteps

theorem withinMode_agrees (hs : s.Sound) (ha : s.Acyclic) (h : Attachable r p ch s) (auto : Bool) :
    Agrees (within (.secondaryChange ch) (attachSteps r p ch auto))
      (@within _ .standard (.secondaryChange ch) (@attachSteps .standard r p ch auto)) s := by
  have hs₁ := hs.of_sameShape (sameShape_suspended ch s)
  have ha₁ := ha.inherits (inherits_suspended ch s)
  have h₁ := h.suspended hs ch
  refine agrees_within _ ?_
  unfold enter
  simp only [ends_bind, ends_pure]
  refine (enterSecondaryChange_ends h.child).total ?_
  rintro _ _ ⟨rfl, rfl⟩
  refine ⟨attachSteps_agrees hs₁ ha₁ h₁ auto, ?_⟩
  refine (attachSteps_ends hs₁ h₁ auto).total fun _ s₂ hw => ?_
  exact leave_agrees hw.sound (ha₁.wires hs₁ hw h₁.cycle) _

theorem attachRelationship_agrees (hs : s.Sound) (ha : s.Acyclic) (r : RelationshipId)
    (p ch : TableId) (auto : Bool) :
    Agrees (attachRelationship r p ch auto) (@attachRelationship .standard r p ch auto) s := by
  unfold attachRelationship
  simp only [agrees_bind, ends_relationship, ends_discard, ends_table, ends_get]
  refine ⟨fun rel hrel => ⟨fun ptbl hptbl => ⟨fun ctbl hctbl => ?_, fun _ => trivial⟩,
    fun _ => trivial⟩, fun _ => trivial⟩
  split
  · exact agrees_throw ..
  · rename_i hreg
    simp only [Bool.or_eq_true, Bool.not_eq_true', not_or, Bool.not_eq_true, Bool.not_eq_false,
      List.isEmpty_iff] at hreg
    rw [agrees_bind, ends_refuseCycle]
    refine ⟨fun hcycle => ?_, fun _ => trivial⟩
    have hatt : Attachable r p ch s := by
      refine ⟨Roster.contains_of_get? hptbl, Roster.contains_of_get? hctbl,
        Roster.contains_of_get? hrel, ?_, hreg.2, ?_⟩
      · simpa [mappingsOf, hrel] using hreg.1
      · simpa [isIdentifying, hrel, endsCloseCycle] using hcycle
    have hstart : s.signal (.compoundEditStarted s!"attach relationship {rel.name}") =
        s.attachStart r := by simp [attachStart, hrel]
    have hsignal := sameObjects_attachStart r s
    refine agrees_within _ ?_
    unfold enter
    simp only [ends_bind, ends_change, ends_pure, hstart]
    constructor
    · exact withinMode_agrees (hs.of_sameObjects hsignal) (ha.inherits hsignal.sameFrame.inherits)
        hatt.attachStart auto
    · -- the signal at the end has no bound
      exact (ends_trivial _ _).mono (fun _ _ _ => rfl) fun _ _ _ => rfl

end Edit

/-! ## All edits -/

namespace Op

open Schema Edit

variable [Beyond] {s : Schema}

/-- On a sound and acyclic schema every public edit agrees with the standard. -/
theorem edit_agrees (hs : s.Sound) (ha : s.Acyclic) (op : Op) :
    Agrees op.edit (@Op.edit .standard op) s := by
  cases op with
  | removeTable t => exact (Agrees.of_eq (congrFun removeTable_eq t)).map _
  | addColumn t col => exact (addColumn_agrees hs ha t col).map _
  | insertColumn t i col => exact (insertColumn_agrees hs ha t i col).map _
  | removeColumn c => exact (Agrees.of_eq (congrFun removeColumn_eq c)).map _
  | setColumnName c name => exact (Agrees.of_eq (congrFun₂ setColumnName_eq c name)).map _
  | setDataType c type => exact (Agrees.of_eq (congrFun₂ setShared_eq _ c)).map _
  | setPrecision c precision => exact (Agrees.of_eq (congrFun₂ setShared_eq _ c)).map _
  | setScale c scale => exact (Agrees.of_eq (congrFun₂ setShared_eq _ c)).map _
  | setNullable c nullable => exact (Agrees.of_eq (congrFun₂ setShared_eq _ c)).map _
  | setPrimaryKeySeq c rank => exact (setPrimaryKeySeq_agrees hs ha c rank).map _
  | removeExportedKey t r => exact (Agrees.of_eq (congrFun₂ removeExportedKey_eq t r)).map _
  | removeImportedKey t r => exact (Agrees.of_eq (congrFun₂ removeImportedKey_eq t r)).map _
  | removeRelationship r => exact (Agrees.of_eq (congrFun removeRelationship_eq r)).map _
  | addMapping r pk fk => exact (addMapping_agrees hs ha r pk fk).map _
  | mapPrimaryKeyColumn r pk => exact (mapPrimaryKeyColumn_agrees hs ha r pk).map _
  | attachRelationship r p ch auto => exact (attachRelationship_agrees hs ha r p ch auto).map _
  | setIdentifying r new => exact (setIdentifying_agrees hs ha r new).map _
  | setSecondaryChangeMode t on => exact (setSecondaryChangeMode_agrees hs ha t on).map _
  | _ => exact .refl _ _

end Op

end KeyedSchema
