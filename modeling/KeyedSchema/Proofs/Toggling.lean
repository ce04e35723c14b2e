import KeyedSchema.Proofs.Demotion
import KeyedSchema.Proofs.KeyMembership
import KeyedSchema.Proofs.Spreading

/-!
# Toggling — what follows when the identifying flag of a relationship is set

A relationship that becomes identifying promotes the columns that it maps, and the promotions go on
below its child only. Its parent is not below its child, so it gets no mapping (`Tightened`).

A relationship that is no longer identifying takes its columns out of the key of its child one by
one. Each of them drops the mappings that the child has of it, and these may lead back: columns of
the relationship may be gone when their turn comes, and a column that was held in the key by another
relationship may be free by then. `Loosened` says what is true however the mappings are laid out:
what goes is determined by the columns that leave the key.
-/

namespace KeyedSchema

namespace Schema

open Relation

variable {s s' s₁ : Schema} {t : TableId} {c : ColumnId} {r : RelationshipId} {m : Mapping}

/-! ## Columns that leave the key -/

/-- What taking columns of the table `t` out of the key comes to, each at its turn and unless a live
identifying relationship other than `r` holds it there. The columns that were out at their turn are
`freed`. -/
structure Loosens (r : RelationshipId) (t : TableId) (fks freed : List ColumnId) (s s' : Schema) :
    Prop where
  withered : Withered (fun _ m => m.pk ∈ freed ∧ s.cascades t = true) s s'
  isKey : ∀ x, s'.columns.contains x = true → s'.isKey x = (s.isKey x && !decide (x ∈ freed))
  of_freed : ∀ c ∈ freed, c ∈ fks ∧ s.isKey c = true ∧ s'.isHeldInKey c r = false
  free : ∀ c ∈ fks, s.isHeldInKey c r = false → s'.isKey c = false

/-- Nothing happens at the turn of a column that is gone or held. -/
theorem Loosens.skip {fks freed : List ColumnId} (h : Loosens r t fks freed s s')
    (hskip : (s.columns.contains c && !s.isHeldInKey c r) = false) :
    Loosens r t (c :: fks) freed s s' where
  withered := h.withered
  isKey := h.isKey
  of_freed x hx := ⟨List.mem_cons_of_mem _ (h.of_freed x hx).1, (h.of_freed x hx).2⟩
  free x hx hfree := by
    rcases List.mem_cons.mp hx with rfl | hx
    · apply Bool.eq_false_iff.mpr
      intro hk
      have hstored := h.withered.shrinks.contains (contains_of_isKey hk)
      rw [hstored, hfree] at hskip
      exact Bool.noConfusion hskip
    · exact h.free x hx hfree

/-- A column that is free at its turn is taken out of the key, if it is there. -/
theorem Loosens.demote {fks freed : List ColumnId} (h : Loosens r t fks freed s₁ s')
    (hs : s.Sound) (hown : s.owner? c = some t) (hfree : s.isHeldInKey c r = false)
    (hw : WorksOff Prune.step [.demote c] s s₁) :
    Loosens r t (c :: fks) (if s.isKey c then c :: freed else freed) s s' := by
  rcases hs.withered_demote hown hw with ⟨hdemoted, hkey⟩
  have hs₁ := hdemoted.sound
  have hsh₁ := hdemoted.shrinks
  have hmem : ∀ x, x ∈ (if s.isKey c then c :: freed else freed) ↔
      (x = c ∧ s.isKey c = true) ∨ x ∈ freed := by
    intro x
    cases s.isKey c <;> simp
  constructor
  case withered =>
    apply (hdemoted.trans h.withered hs).congr
    · rintro r' m - - (⟨hpk, hk, hcasc⟩ | ⟨hin, hcasc⟩)
      · exact ⟨(hmem m.pk).mpr (.inl ⟨hpk, hk⟩), hcasc⟩
      · exact ⟨(hmem m.pk).mpr (.inr hin), (hsh₁.frame.cascades t).symm.trans hcasc⟩
    · rintro r' m - - ⟨hin, hcasc⟩
      rcases (hmem m.pk).mp hin with ⟨hpk, hk⟩ | hin
      · exact .inl (.inl ⟨hpk, hk, hcasc⟩)
      · exact .inl (.inr ⟨hin, (hsh₁.frame.cascades t).trans hcasc⟩)
  case isKey =>
    intro x hx
    rw [h.isKey x hx, hkey x (h.withered.shrinks.contains hx)]
    by_cases hxc : x = c
    · subst hxc
      cases hk : s.isKey x <;> simp
    · cases hk : s.isKey c <;> simp [hxc]
  case of_freed =>
    intro x hx
    rcases (hmem x).mp hx with ⟨rfl, hk⟩ | hx
    · refine ⟨List.mem_cons_self .., hk, Bool.eq_false_iff.mpr fun hheld => ?_⟩
      have hsh := hsh₁.trans h.withered.shrinks
      exact absurd (hfree.symm.trans (hsh.isHeldInKey hs h.withered.sound hheld)) Bool.noConfusion
    · rcases h.of_freed x hx with ⟨hin, hk, hunheld⟩
      exact ⟨List.mem_cons_of_mem _ hin, hsh₁.isKey x hk, hunheld⟩
  case free =>
    intro x hx hxfree
    apply Bool.eq_false_iff.mpr
    intro hk
    have hk₁ := h.withered.shrinks.isKey x hk
    rcases List.mem_cons.mp hx with rfl | hx
    · rw [hkey x (contains_of_isKey hk₁)] at hk₁
      simp at hk₁
    · have hxfree₁ : s₁.isHeldInKey x r = false := Bool.eq_false_iff.mpr fun hheld =>
        absurd (hxfree.symm.trans (hsh₁.isHeldInKey hs hs₁ hheld)) Bool.noConfusion
      exact absurd (hk.symm.trans (h.free x hx hxfree₁)) Bool.noConfusion

/-- The turns of all columns, one after the other. -/
theorem Sound.loosens {fks : List ColumnId} (hs : s.Sound)
    (hown : ∀ c ∈ fks, s.columns.contains c = true → s.owner? c = some t)
    (hw : WorksOff Prune.step (fks.map (.loosen r)) s s') :
    ∃ freed, Loosens r t fks freed s s' := by
  induction fks generalizing s with
  | nil =>
      cases hw
      refine ⟨[], ?_, fun x _ => by simp, fun _ h => absurd h List.not_mem_nil,
        fun _ h => absurd h List.not_mem_nil⟩
      apply ((SameShape.refl _).withered hs (.refl _)).congr
      · exact fun _ _ _ _ hno => hno.elim
      · exact fun _ _ _ _ hin => absurd hin.1 List.not_mem_nil
  | cons c fks ih =>
      have hrest := fun x hx => hown x (List.mem_cons_of_mem c hx)
      cases hcond : s.columns.contains c && !s.isHeldInKey c r with
      | false =>
          cases hw with
          | task hw =>
              simp only [Prune.step, hcond] at hw
              rcases ih hs hrest hw with ⟨freed, h⟩
              exact ⟨freed, h.skip hcond⟩
      | true =>
          cases hw with
          | task hw =>
              simp only [Prune.step, hcond, if_true] at hw
              rcases hw.split with ⟨s₁, hdemote, hw⟩
              rw [Bool.and_eq_true, Bool.not_eq_true'] at hcond
              rcases hs.prune hdemote with ⟨hs₁, hsh⟩
              have hrest₁ : ∀ x ∈ fks, s₁.columns.contains x = true → s₁.owner? x = some t :=
                fun x hx hx₁ => (hsh.owner? x hx₁).trans (hrest x hx (hsh.contains hx₁))
              rcases ih hs₁ hrest₁ hw with ⟨freed, h⟩
              exact ⟨_, h.demote hs (hown c (List.mem_cons_self ..) hcond.1) hcond.2 hdemote⟩

/-! ## A relationship that is no longer identifying -/

/-- Whether a mapping is dropped because its parent column leaves the key: `r` maps that column, and
its table cascades. -/
def Frees (r : RelationshipId) (s s' : Schema) (m : Mapping) : Prop :=
  ((s.child? r).any s.cascades = true ∧ m.pk ∈ (s.mappingsOf r).map Mapping.fk) ∧
    s.isKey m.pk = true ∧ s'.isKey m.pk = false

/-- What comes of a relationship that is no longer identifying. -/
structure Loosened (r : RelationshipId) (s s' : Schema) : Prop where
  gone_iff : ∀ x, s.columns.contains x = true →
    (s'.columns.contains x = false ↔ s.Withers (fun _ => Frees r s s') x)
  unmapped_iff : ∀ r' m, s.isLive r' = true → m ∈ s.mappingsOf r' →
    (m ∉ s'.mappingsOf r' ↔ Frees r s s' m ∨ s'.columns.contains m.pk = false)
  mappingsOf : ∀ r', s'.mappingsOf r' ⊆ s.mappingsOf r'
  /-- A column that no other identifying relationship maps before is outside of the key after. -/
  free : ∀ m ∈ s.mappingsOf r, s.isHeldInKey m.fk r = false → s'.isKey m.fk = false
  /-- A column that another identifying relationship maps after is where it was before. -/
  held : ∀ m ∈ s.mappingsOf r, s'.isHeldInKey m.fk r = true → s'.isKey m.fk = s.isKey m.fk
  others : ∀ x, s'.columns.contains x = true → x ∉ (s.mappingsOf r).map Mapping.fk →
    s'.isKey x = s.isKey x

theorem isHeldInKey_markIdentifying (hs : s.Sound) (old new : Bool) :
    (s.markIdentifying r old new).isHeldInKey c r = s.isHeldInKey c r := by
  have hshape := sameShape_markIdentifying r old new s
  rw [Bool.eq_iff_iff, (hs.of_sameShape hshape).isHeldInKey_iff, hs.isHeldInKey_iff]
  simp only [hshape.isLive, hshape.mem_mappingsOf, isIdentifying_markIdentifying]
  refine exists_congr fun r' => exists_congr fun m => and_congr_right fun hne => ?_
  rw [if_neg hne]

section

variable {ch : TableId} {freed : List ColumnId}

/-- The columns that were out at their turn are those of `r` that have left the key, apart from some
that are gone. -/
theorem Loosens.withered_frees
    (h : Loosens r ch ((s.mappingsOf r).map Mapping.fk) freed (s.markIdentifying r true false) s')
    (hs : s.Sound) (hch : s.child? r = some ch) :
    Withered (fun _ => Frees r s s') (s.markIdentifying r true false) s' := by
  have hs₁ := hs.of_sameShape (sameShape_markIdentifying r true false s)
  have hany : (s.child? r).any s.cascades = s.cascades ch := by rw [hch, Option.any_some]
  apply h.withered.congr
  · rintro r' m - hm ⟨hin, hcasc⟩
    rw [cascades_markIdentifying] at hcasc
    rcases h.of_freed m.pk hin with ⟨hfk, hk, -⟩
    rw [isKey_markIdentifying] at hk
    refine ⟨⟨hany.trans hcasc, hfk⟩, hk, Bool.eq_false_iff.mpr fun hk' => ?_⟩
    rw [h.isKey m.pk (contains_of_isKey hk')] at hk'
    simp [hin] at hk'
  · rintro r' m - hm ⟨⟨hcasc, -⟩, hk, hk'⟩
    cases hc : s'.columns.contains m.pk with
    | false => exact .inr ((h.withered.gone_iff m.pk (hs₁.pk_stored hm)).mp hc)
    | true =>
        rw [h.isKey m.pk hc, isKey_markIdentifying, hk] at hk'
        rw [cascades_markIdentifying]
        exact .inl ⟨by simpa using hk', hany.symm.trans hcasc⟩

theorem Loosens.loosened
    (h : Loosens r ch ((s.mappingsOf r).map Mapping.fk) freed (s.markIdentifying r true false) s')
    (hs : s.Sound) (hch : s.child? r = some ch) : Loosened r s s' := by
  have hshape := sameShape_markIdentifying r true false s
  have hs₁ := hs.of_sameShape hshape
  have hrun := h.withered_frees hs hch
  constructor
  case gone_iff =>
    intro x hx
    rw [← hshape.withers_iff hs]
    exact hrun.gone_iff x ((hshape.contains_column x).trans hx)
  case unmapped_iff =>
    intro r' m hl hm
    have hm₁ := hshape.mem_mappingsOf.mpr hm
    rw [hrun.unmapped_iff r' m ((hshape.isLive r').trans hl) hm₁,
      hrun.gone_iff m.pk (hs₁.pk_stored hm₁)]
  case mappingsOf =>
    exact fun r' m hm => hshape.mem_mappingsOf.mp (hrun.shrinks.mappingsOf r' hm)
  case free =>
    intro m hm hfree
    exact h.free m.fk (List.mem_map_of_mem hm) ((isHeldInKey_markIdentifying hs ..).trans hfree)
  case held =>
    intro m hm hheld
    rcases hrun.sound.isHeldInKey_iff.mp hheld with ⟨r', m', -, -, -, hm', hfk⟩
    have hout : m.fk ∉ freed := fun hin =>
      absurd ((h.of_freed m.fk hin).2.2.symm.trans hheld) Bool.noConfusion
    rw [h.isKey m.fk (hfk ▸ hrun.sound.fk_stored hm'), isKey_markIdentifying]
    simp [hout]
  case others =>
    intro x hx hout
    have hnot : x ∉ freed := fun hin => hout (h.of_freed x hin).1
    rw [h.isKey x hx, isKey_markIdentifying]
    simp [hnot]

end

theorem Marks.loosened (h : Marks r false s s') (hs : s.Sound) (hl : s.isLive r = true)
    (hid : s.isIdentifying r = true) : Loosened r s s' := by
  cases h with
  | plain hplain =>
      rcases hplain with hnot | hdead
      · exact absurd (hid.symm.trans hnot) Bool.noConfusion
      · exact absurd (hl.symm.trans hdead) Bool.noConfusion
  | tightens hnew => exact absurd hnew Bool.noConfusion
  | loosens _ _ _ hw =>
      rcases isLive_iff.mp hl with ⟨p, ch, -, hch, -⟩
      have hshape := sameShape_markIdentifying r true false s
      have hown : ∀ x ∈ (s.mappingsOf r).map Mapping.fk,
          (s.markIdentifying r true false).columns.contains x = true →
          (s.markIdentifying r true false).owner? x = some ch := by
        intro x hx _
        rcases List.mem_map.mp hx with ⟨m, hm, rfl⟩
        rw [hshape.owner?]
        exact hs.fk_owner hm hch
      rcases (hs.of_sameShape hshape).loosens hown hw with ⟨freed, h⟩
      exact h.loosened hs hch

/-! ## A relationship that becomes identifying -/

/-- What comes of a relationship that becomes identifying. -/
structure Tightened (r : RelationshipId) (s s' : Schema) : Prop where
  stored : ∀ x, s.columns.contains x = true → s'.columns.contains x = true
  mem_mappingsOf : ∀ m, m ∈ s'.mappingsOf r ↔ m ∈ s.mappingsOf r
  keyed : ∀ m ∈ s.mappingsOf r, ∃ ch, s'.child? r = some ch ∧ m.fk ∈ s'.primaryKey ch

/-- With its flag set, a live relationship is a link from its parent to its child. -/
theorem carries_markIdentifying {p ch : TableId} (hl : s.isLive r = true)
    (hp : s.parent? r = some p) (hch : s.child? r = some ch) :
    (s.markIdentifying r false true).Carries r p ch := by
  have hshape := sameShape_markIdentifying r false true s
  refine ⟨(hshape.isLive r).trans hl, ?_, (hshape.parent? r).trans hp, (hshape.child? r).trans hch⟩
  rw [isIdentifying_markIdentifying, if_pos rfl, Bool.and_true]
  exact contains_of_parent? hp

/-- Promoting the columns of a relationship stays at tables that the key of its child feeds into. -/
theorem Sound.stays_marked {ch : TableId} (hs : s.Sound) (hch : s.child? r = some ch)
    (old new : Bool) : ∀ task ∈ ((s.mappingsOf r).map Mapping.fk).map (Grow.promote s.tables.size),
      task.Stays (ReflTransGen (s.markIdentifying r old new).Feeds ch)
        (ReflTransGen (s.markIdentifying r old new).Feeds ch) (s.markIdentifying r old new) := by
  intro task ht
  rcases List.mem_map.mp ht with ⟨fk, hfk, rfl⟩
  rcases List.mem_map.mp hfk with ⟨m, hm, rfl⟩
  have hown := (sameShape_markIdentifying r old new s).owner? m.fk
  exact ⟨ch, hown.trans (hs.fk_owner hm hch), .refl⟩

theorem Marks.tightened (h : Marks r true s s') (hs : s.Sound) (ha : s.Acyclic)
    (hl : s.isLive r = true) (hid : s.isIdentifying r = false)
    (hcycle : (true && !s.isIdentifying r &&
      s.endsCloseCycle r (s.parent? r) (s.child? r)) = false) : Tightened r s s' := by
  have hanchors := h.anchors hs ha hcycle
  cases h with
  | plain hplain =>
      rcases hplain with hset | hdead
      · exact absurd (hid.symm.trans hset) Bool.noConfusion
      · exact absurd (hl.symm.trans hdead) Bool.noConfusion
  | loosens hnew => exact absurd hnew Bool.noConfusion
  | tightens _ _ _ hw =>
      rcases isLive_iff.mp hl with ⟨p, ch, hp, hch, -⟩
      have hshape := sameShape_markIdentifying r false true s
      have hs₁ := hs.of_sameShape hshape
      have ha₁ := ha.markIdentifying hs r hcycle
      rw [hid] at ha₁
      have hlink := carries_markIdentifying hl hp hch
      have hstays := hs.stays_marked hch false true
      -- the parent is not below the child, because that would close a circle
      have hout : ¬ ReflTransGen (s.markIdentifying r false true).Feeds ch p := fun hwalk =>
        ha₁ p (.head' ⟨r, hlink⟩ hwalk)
      have hg := (hs₁.grow (hs.ready_marked r false true) hw).2
      have hkept : ∀ m, m ∈ s.mappingsOf r → m ∈ s'.mappingsOf r := fun m hm =>
        hg.mappingsOf r (hshape.mem_mappingsOf.mpr hm)
      constructor
      case stored => exact fun x hx => hg.contains ((hshape.contains_column x).trans hx)
      case mem_mappingsOf =>
        refine fun m => ⟨fun hm => ?_, hkept m⟩
        exact hshape.mem_mappingsOf.mp
          (hs₁.mappingsOf_elsewhere (fences_below _ ch) hstays hw hlink.parent hout hm)
      case keyed =>
        intro m hm
        have hs' := (Marks.tightens rfl hid hl hw).sound hs
        have hch' : s'.child? r = some ch := (hg.frame.child? r).trans hlink.child
        have hown := hs'.fk_owner (hkept m hm) hch'
        refine ⟨ch, hch', mem_primaryKey.mpr ⟨(hs'.listed ch m.fk).mpr hown, ?_⟩⟩
        -- outside of the key the column would be adrift, and so it would have been before
        by_contra hout
        have hadrift : s'.Adrift r m :=
          ⟨(hg.frame.isLive r).trans hlink.isLive, (hg.frame.isIdentifying r).trans
            hlink.isIdentifying, hkept m hm, Bool.eq_false_iff.mpr hout⟩
        exact absurd (hid.symm.trans (hanchors r m hadrift).isIdentifying) Bool.noConfusion

/-- A new flag is there at the end. -/
theorem Marks.isIdentifying {new : Bool} (h : Marks r new s s') (hs : s.Sound)
    (hr : s.relationships.contains r = true) : s'.isIdentifying r = new := by
  have hflag : ∀ old, (s.markIdentifying r old new).isIdentifying r = new := by
    intro old
    rw [isIdentifying_markIdentifying, if_pos rfl, hr, Bool.true_and]
  cases h with
  | plain _ => exact hflag _
  | tightens hnew _ _ hw =>
      subst hnew
      exact ((sameFrame_of_grow hw).isIdentifying r).trans (hflag false)
  | loosens hnew _ _ hw =>
      subst hnew
      have hs₁ := hs.of_sameShape (sameShape_markIdentifying r true false s)
      exact ((hs₁.prune hw).2.frame.isIdentifying r).trans (hflag true)

/-- Setting the identifying flag of a live relationship the other way, in a schema that can be
reached. Once it is set, the relationship has all its mappings still, and its columns are in the
key. Once it is cleared, exactly those columns are gone, and those mappings, that hang on the
columns that have left the key; columns and mappings of the relationship are among them if they do
so. -/
theorem Reachable.toggles {new : Bool} {reply : Reply} (h : s.Reachable) (hl : s.isLive r = true)
    (hid : s.isIdentifying r = !new) (hok : (Op.setIdentifying r new).perform s = (.ok reply, s')) :
    s'.isIdentifying r = new ∧ (new = true → Tightened r s s') ∧
      (new = false → Loosened r s s') := by
  have hs := h.sound
  rcases Edit.Ends.of_ok (Op.edit_ends hs (.setIdentifying r new)) hok with
    ⟨hcycle, s₁, s₂, h₁, hmarks, h₂⟩
  have hs₁ := hs.of_sameObjects h₁
  have hr : s₁.relationships.contains r = true := by
    rcases isLive_iff.mp hl with ⟨_, _, hp, -⟩
    exact h₁.relationships ▸ contains_of_parent? hp
  have hflag := hmarks.isIdentifying hs₁ hr
  -- events move none of the objects
  obtain ⟨_, _, _, _, rfl⟩ := h₁.exists_eq
  obtain ⟨_, _, _, _, rfl⟩ := h₂.exists_eq
  refine ⟨hflag, ?_, ?_⟩
  · rintro rfl
    have ha₁ := h.acyclic.inherits h₁.sameFrame.inherits
    have htight := hmarks.tightened hs₁ ha₁ hl hid hcycle
    exact ⟨htight.stored, htight.mem_mappingsOf, htight.keyed⟩
  · rintro rfl
    have hloose := hmarks.loosened hs₁ hl hid
    exact ⟨fun x hx => (hloose.gone_iff x hx).trans (h₁.sameShape.withers_iff hs),
      hloose.unmapped_iff, hloose.mappingsOf, hloose.free, hloose.held, hloose.others⟩

/-- An identifying relationship, and another one that leads back and adopts the key column that the
first one maps. -/
def returningMoves : List Move :=
  [.edit (.addTable { name := "a" }),
    .edit (.addColumn ⟨1⟩ { name := "id", rank := some 0 }),
    .edit (.addTable { name := "b" }),
    .edit (.createRelationship { name := "ab", identifying := true }),
    .edit (.attachRelationship ⟨1⟩ ⟨1⟩ ⟨2⟩ true),
    .edit (.createRelationship { name := "ba" }),
    .edit (.attachRelationship ⟨2⟩ ⟨2⟩ ⟨1⟩ true)]

/-- The column that leaves the key hangs on itself, so it is gone once the flag is cleared, together
with the mapping of the relationship. -/
theorem toggles_returning : ∃ s s' : Schema, s.Reachable ∧ s.isLive ⟨1⟩ = true ∧
    s.isIdentifying ⟨1⟩ = !false ∧ (Op.setIdentifying ⟨1⟩ false).perform s = (.ok .done, s') ∧
    s.mappingsOf ⟨1⟩ = [⟨⟨1⟩, ⟨2⟩⟩] ∧ s'.mappingsOf ⟨1⟩ = [] ∧
    s'.columns.contains ⟨2⟩ = false ∧ s.Withers (fun _ => Frees ⟨1⟩ s s') ⟨2⟩ := by
  have hreach : Schema.Reachable ((Moment.start {}).run returningMoves).schema :=
    ⟨{}, returningMoves, rfl⟩
  have hlive : ((Moment.start {}).run returningMoves).schema.isLive ⟨1⟩ = true := by decide +kernel
  have hid : ((Moment.start {}).run returningMoves).schema.isIdentifying ⟨1⟩ = !false := by
    decide +kernel
  have hmapped : ((Moment.start {}).run returningMoves).schema.mappingsOf ⟨1⟩ =
      [⟨⟨1⟩, ⟨2⟩⟩] := by decide +kernel
  have hok : (Op.setIdentifying ⟨1⟩ false).perform ((Moment.start {}).run returningMoves).schema =
      (.ok .done, ((Op.setIdentifying ⟨1⟩ false).perform
        ((Moment.start {}).run returningMoves).schema).2) := rfl
  have hunmapped : ((Op.setIdentifying ⟨1⟩ false).perform
      ((Moment.start {}).run returningMoves).schema).2.mappingsOf ⟨1⟩ = [] := by decide +kernel
  have hgone : ((Op.setIdentifying ⟨1⟩ false).perform
      ((Moment.start {}).run returningMoves).schema).2.columns.contains ⟨2⟩ = false := by
    decide +kernel
  have hstored : ((Moment.start {}).run returningMoves).schema.columns.contains ⟨2⟩ = true := by
    decide +kernel
  have hloose := (hreach.toggles hlive hid hok).2.2 rfl
  exact ⟨_, _, hreach, hlive, hid, hok, hmapped, hunmapped, hgone,
    (hloose.gone_iff ⟨2⟩ hstored).mp hgone⟩

end Schema

end KeyedSchema
