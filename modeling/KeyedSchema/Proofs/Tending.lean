import KeyedSchema.Proofs.Lagging

/-!
# Tending — keys and mappings stay together

If the cascades of every table are enabled from the start, and the client neither switches them off
nor registers or maps relationships by hand, the schema looks after its mappings itself: between any
two moves, every live relationship maps the key of its parent, column by column and in key order,
and every key is numbered `0`, `1`, … Inside a move neither holds.

Some relationships may be left to miss columns, since a client has chosen what they map (`Upheld`
with what they owe). All the rest holds for them as well: what they do map is in the key of their
parent, in key order.
-/

namespace KeyedSchema

namespace Schema

variable {s s' : Schema} {t p ch : TableId} {c pk fk : ColumnId} {r : RelationshipId}
  {debt : RelationshipId → ColumnId → Prop}

/-- Whether keys and mappings are together but for what is owed, and cascades enabled on every table
and on those to come. -/
structure Upheld (debt : RelationshipId → ColumnId → Prop) (s : Schema) : Prop where
  sound : s.Sound
  byDefault : s.config.magicByDefault = true
  awake : s.Awake
  mirrors : MirrorsBut debt s

/-- Whether keys and mappings are together, and nothing is owed. -/
abbrev Tended (s : Schema) : Prop := Upheld (fun _ _ => False) s

theorem Tended.mirrored (h : Tended s) : s.Mirrored := h.mirrors

theorem upheld_ofConfig {config : Config} (h : config.magicByDefault = true) :
    Upheld debt (ofConfig config) where
  sound := sound_ofConfig config
  byDefault := h
  awake t ht := by simp [ofConfig, Roster.empty, Roster.contains, Roster.get?, Roster.find] at ht
  mirrors := by
    have hdead : ∀ r, (ofConfig config).isLive r = false := fun _ => rfl
    refine ⟨fun r m hl _ => ?_, fun r p x hl _ _ _ => ?_, fun r hl => ?_, fun t => ?_⟩
    · exact absurd ((hdead r).symm.trans hl) Bool.noConfusion
    · exact absurd ((hdead r).symm.trans hl) Bool.noConfusion
    · exact absurd ((hdead r).symm.trans hl) Bool.noConfusion
    · exact .inl (numbered_of_columnsOf rfl)

theorem tended_ofConfig {config : Config} (h : config.magicByDefault = true) :
    (ofConfig config).Tended := upheld_ofConfig h

/-! ## Changes that leave live relationships alone -/

/-- Cascades are enabled as before if no table comes and no switch changes. -/
theorem Awake.congr (h : Awake s) (ht : ∀ t, s'.tables.contains t = true → s.tables.contains t = true)
    (hx : ∀ t, s'.tables.contains t = true → s'.cascades t = s.cascades t) : Awake s' :=
  fun t ht' => (hx t ht').trans (h t (ht t ht'))

theorem Upheld.keeps (h : Upheld debt s) (hs' : s'.Sound) (hconfig : s'.config = s.config)
    (ha : Awake s') (hk : Keeps s s') : Upheld debt s' where
  sound := hs'
  byDefault := hconfig ▸ h.byDefault
  awake := ha
  mirrors := hk.mirrors hs' h.mirrors

theorem Upheld.sameObjects (h : Upheld debt s) (ho : SameObjects s s') : Upheld debt s' :=
  h.keeps (h.sound.of_sameObjects ho) ho.config (h.awake.frame ho.sameFrame) ho.keeps

/-- What is kept amid events. -/
theorem AmidEvents.upheld {R : Schema → Schema → Prop} (h : AmidEvents R s s') (ht : Upheld debt s)
    (hR : ∀ s₁ s₂, SameObjects s s₁ → Upheld debt s₁ → R s₁ s₂ → Upheld debt s₂) : Upheld debt s' :=
  h.preserves ht (fun _ _ ho ht => ht.sameObjects ho) hR

/-- A refused edit keeps what there is. -/
theorem Untouched.upheld (h : Untouched s s') (ht : Upheld debt s) : Upheld debt s' := by
  refine ht.keeps (h.sound ht.sound) ?_ ?_ ?_
  · rw [h.same]
  · rw [h.same]
    exact ht.awake
  · rw [h.same]
    exact ⟨fun _ hl => hl, fun _ _ => rfl, fun _ _ => rfl, fun _ _ => rfl, fun _ _ => rfl,
      fun _ => .inr (.refl _)⟩

theorem Upheld.sameSkeleton (h : Upheld debt s) (hsk : SameSkeleton s s') : Upheld debt s' :=
  h.keeps (hsk.sound h.sound) hsk.shape.config
    (h.awake.congr (fun t ht => (hsk.shape.contains_table t).symm.trans ht) fun t _ => hsk.cascades t)
    (hsk.shape.keeps hsk.rank? hsk.mappingsOf)

/-- A change of a relationship that is not live afterwards. -/
theorem AgreeBut.keeps (h : AgreeBut r s s') (hl : s'.isLive r = false)
    (hcols : s'.columns = s.columns) (hcolumnsOf : ∀ t, s'.columnsOf t = s.columnsOf t) :
    Keeps s s' := by
  have hne : ∀ r', s'.isLive r' = true → r' ≠ r := by
    rintro r' hl' rfl
    rw [hl] at hl'
    exact Bool.noConfusion hl'
  refine ⟨fun r' hl' => (h.isLive (hne r' hl')).symm.trans hl', fun r' hl' => ?_, fun r' hl' => ?_,
    fun c _ => ?_, fun c _ => ?_, fun t => .inr (.of_eq (hcolumnsOf t))⟩
  · unfold Schema.parent?
    rw [h.relationship r' (hne r' hl')]
  · unfold Schema.mappingsOf
    rw [h.relationship r' (hne r' hl')]
  · unfold Schema.owner?
    rw [hcols]
  · unfold Schema.rank?
    rw [hcols]

theorem Upheld.replaces {rel : Option Relationship} (h : Upheld debt s) (hrep : Replaces r rel s s')
    (hs' : s'.Sound) (hl : s'.isLive r = false) : Upheld debt s' := by
  refine h.keeps hs' hrep.config (h.awake.congr (fun t ht => hrep.tables ▸ ht) fun t _ => ?_)
    (hrep.agreeBut.keeps hl hrep.columns hrep.columnsOf)
  unfold Schema.cascades
  rw [hrep.tables]

theorem Upheld.changeRelationship (h : Upheld debt s) {f : Relationship → Relationship}
    (hs' : s'.Sound) (ho : SameObjects (s.changeRelationship r f) s')
    (hreg : s.isRegistered r = false) : Upheld debt s' := by
  have hrep := replaces_changeRelationship ho
  exact h.replaces hrep hs' (hrep.not_isLive (notMem_of_not_isRegistered h.sound hreg).1)

theorem Upheld.storeRelationship (h : Upheld debt s) {rel : Relationship}
    (hs' : (s.storeRelationship rel).Sound) : Upheld debt (s.storeRelationship rel) := by
  have hrep := replaces_storeRelationship rel s
  exact h.replaces hrep hs' (hrep.not_isLive h.sound.next_notMem.1)

theorem Upheld.dropRelationship (h : Upheld debt s) (hs' : (s.dropRelationship r).Sound) :
    Upheld debt (s.dropRelationship r) := by
  refine h.replaces (replaces_dropRelationship r s) hs' ?_
  rw [isLive_dropRelationship]
  simp

theorem Upheld.deregisters (h : Upheld debt s) (hd : Deregisters s s') : Upheld debt s' := by
  have hre := hd.reregisters
  exact h.keeps (hd.sound h.sound) hre.config
    (h.awake.congr (fun t ht => (hre.contains_table t).symm.trans ht) fun t _ => hre.cascades t)
    ⟨fun _ hl => hd.isLive_of hl, fun r _ => hre.parent? r, fun r _ => hre.mappingsOf r,
      fun c _ => hre.owner? c, fun c _ => hre.rank? c, fun t => .inr (.of_eq (hre.columnsOf t))⟩

theorem Upheld.markIdentifying (h : Upheld debt s) (r : RelationshipId) (old new : Bool) :
    Upheld debt (s.markIdentifying r old new) := by
  have hshape := sameShape_markIdentifying r old new s
  have ho := markIdentifying_objects r old new s
  refine h.keeps (h.sound.of_sameShape hshape) hshape.config
    (h.awake.congr (fun t ht => (hshape.contains_table t).symm.trans ht) fun t _ => ?_)
    (hshape.keeps (fun c => ?_) fun r' => mappingsOf_markIdentifying r r' old new s)
  · unfold Schema.cascades
    rw [ho.tables]
    rfl
  · unfold Schema.rank?
    rw [columns_markIdentifying]

/-! ## Runs of tasks -/

/-- What keeps the frame only has to keep the mappings together. -/
theorem Upheld.frame (h : Upheld debt s) (hs' : s'.Sound) (hf : SameFrame s s')
    (hm : MirrorsBut debt s') : Upheld debt s' where
  sound := hs'
  byDefault := hf.config ▸ h.byDefault
  awake := h.awake.frame hf
  mirrors := hm

theorem Upheld.prune {tasks : List Prune} (h : Upheld debt s) (hmay : ∀ task ∈ tasks, Trimmable s task)
    (hw : WorksOff Prune.step tasks s s') : Upheld debt s' :=
  h.frame (h.sound.prune hw).1 (h.sound.prune hw).2.frame
    (MirrorsBut.prune h.mirrors h.sound h.awake hmay hw)

/-- Nothing is left for later if every table cascades. -/
theorem Awake.asleep (h : Awake s) {P : Prop} (ht : s.tables.contains t = true)
    (hx : s.cascades t = false) : P := by
  rw [h t ht] at hx
  exact Bool.noConfusion hx

section

variable {tasks : List Grow}

theorem Upheld.tends (h : Upheld debt s) (hmay : ∀ task ∈ tasks, Tendable s task) :
    Tends debt (fun _ => False) tasks s where
  sound := h.sound
  asleep _ ht hx := h.awake.asleep ht hx
  mirrors := h.mirrors.mono (fun _ _ _ _ h => h) (fun _ _ _ _ _ _ _ h => .inl h)
    (fun _ _ h => h.elim) fun _ h => h.elim
  may := hmay

/-- Once all that is amiss is mended, keys and mappings are together again. -/
theorem Upheld.of_tends {s₀ : Schema} (h : Upheld debt s₀) (hf : SameFrame s₀ s)
    (ht : Tends debt (fun _ => False) tasks s) (hw : WorksOff Grow.step tasks s s') :
    Upheld debt s' := by
  refine h.frame (ht.sound.grow (fun task hin => (ht.may task hin).ready) hw).1
    (hf.trans (sameFrame_of_grow hw)) ((ht.run hw).mono (fun _ _ _ _ h => h)
      (fun _ _ _ _ _ _ _ h => h) (fun r _ hin => ?_) fun _ h => h)
  obtain ⟨_, -, hno⟩ := hin
  exact hno

theorem Upheld.grow (h : Upheld debt s) (hmay : ∀ task ∈ tasks, Tendable s task)
    (hw : WorksOff Grow.step tasks s s') : Upheld debt s' := h.of_tends (.refl s) (h.tends hmay) hw

end

/-! ## Ranks and columns -/

theorem Upheld.normalizeKey (h : Upheld debt s) (t : TableId) (placed : Option ColumnId) :
    Upheld debt (s.normalizeKey t placed) := by
  have hre := reranks_normalizeKey t placed s
  exact h.frame (hre.sound h.sound) hre.sameFrame
    ((h.mirrors.normalizeKey h.sound t placed).mono (fun _ _ _ _ h => h) (fun _ _ _ _ _ _ _ h => h)
      (fun _ _ h => h.1) fun _ h => h.1)

/-- A new column, if it has a rank, joins the key. -/
theorem Inserts.upheld {i : Nat} {col : Column} (h : Inserts t i col s s') (ht : Upheld debt s) :
    Upheld debt s' := by
  have hf := sameFrame_placeColumn t i col s
  have hs₁ := ht.sound.placeColumn h.table h.index col
  have hm := ht.mirrors.placeColumn ht.sound h.table h.index col
  have hw := h.worksOff
  cases hcol : col.isKey with
  | false =>
      rw [hcol, if_neg Bool.false_ne_true] at hw
      refine Upheld.grow (ht.frame hs₁ hf (hm.mono (fun _ _ _ _ h => h) (fun _ _ _ _ _ _ _ hin => ?_)
        (fun _ _ h => h) fun _ hin => ?_)) (by simp) hw
      · exact hin.resolve_right (by simp [hcol])
      · exact hin.resolve_right (by simp [hcol])
  | true =>
      rw [hcol, if_pos rfl] at hw
      -- every relationship is to map the new key column once it has joined its key
      refine ht.of_tends hf ⟨hs₁, fun _ ht' hx => (ht.awake.frame hf).asleep ht' hx,
        hm.mono (fun _ _ _ _ h => h) (fun r p x _ _ _ _ hin => ?_) (fun _ _ h => h.elim)
          fun t' hin => ?_, fun task hin => ?_⟩ hw
      · rcases hin with hdebt | ⟨rfl, -⟩
        · exact .inl hdebt
        · exact .inr (.inr ⟨_, List.mem_cons_self ..⟩)
      · obtain ⟨rfl, -⟩ := hin.resolve_left id
        exact .inr ⟨_, s.nextColumn, List.mem_cons_self .., by rw [owner?_placeColumn, if_pos rfl]⟩
      · obtain rfl := List.mem_singleton.mp hin
        change (s.placeColumn t i col).isKey s.nextColumn = true
        unfold Schema.isKey
        rw [rank?_placeColumn, if_pos rfl]
        exact hcol

/-- A column that gets a rank joins the key or moves within it. -/
theorem Places.upheld {k : Nat} (h : Places c k s s') (ht : Upheld debt s)
    (hc : s.columns.contains c = true) : Upheld debt s' := by
  cases h with
  | joins _ hw =>
      obtain ⟨t, ho⟩ := ht.sound.owned c hc
      have hpromote : ∀ task ∈ [Grow.promote s.tables.size c], Tendable s task := by
        intro task hin
        obtain rfl := List.mem_singleton.mp hin
        exact hc
      exact ht.of_tends (reranks_changeRank c none (some k) s).sameFrame
        ((ht.tends hpromote).rank ho) hw
  | @moves old t hrank ho =>
      -- the key is numbered at once, and its columns are the same
      rw [if_pos (ht.sound.cascades_of_owner? ht.awake ho)]
      have hre := reranks_changeRank c (some old) (some k) s
      have hs₁ := hre.sound ht.sound
      have hkey : s.isKey c = true := isKey_iff.mpr ⟨old, hrank⟩
      refine ht.frame ((reranks_normalizeKey t (some c) _).sound hs₁)
        (hre.trans (reranks_normalizeKey t (some c) _)).sameFrame
        (((ht.mirrors.changeRank ht.sound ho (some old) (some k)).normalizeKey hs₁ t (some c)).mono
          (fun _ _ _ _ hin => ?_) (fun _ _ _ _ _ _ _ hin => ?_) (fun r _ hin => ?_) fun t' hin => ?_)
      · exact hin.resolve_right (by simp)
      · exact hin.resolve_right (by simp [hkey])
      · exact hin.2 ((hre.sameFrame.parent? r).trans (hin.1.resolve_left id))
      · exact hin.2 (hin.1.resolve_left id)
  | stays _ => exact ht

theorem Moves.upheld (h : Moves s s') (ht : Upheld debt s) : Upheld debt s' := by
  obtain ⟨s₁, h₁, rfl | ⟨t, rfl⟩⟩ := h
  · exact ht.sameSkeleton h₁
  · exact (ht.sameSkeleton h₁).normalizeKey t none

/-! ## Relationships that go -/

theorem Upheld.unlink (h : Upheld debt s) (r : RelationshipId) : Upheld debt (s.unlink r) := by
  have hu := h.sound.unlinked r
  have hne : ∀ {r'}, (s.unlink r).isLive r' = true → r' ≠ r ∧ s.isLive r' = true := by
    intro r' hl
    rwa [hu.isLive, Bool.and_eq_true, decide_eq_true_eq] at hl
  refine h.keeps hu.sound hu.config (h.awake.congr (fun t ht => ?_) fun t _ => hu.cascades t)
    ⟨fun _ hl => (hne hl).2, fun r' _ => hu.parent? r', fun r' hl => ?_, fun c _ => hu.owner? c,
      fun c _ => ?_, fun t => .inr (.of_eq (hu.columnsOf t))⟩
  · rwa [← Roster.mem_keys_iff, hu.tableKeys, Roster.mem_keys_iff] at ht
  · rw [hu.mappingsOf, if_neg (hne hl).1]
  · unfold Schema.rank?
    rw [hu.columns]

theorem coversDismissal_upheld : CoversDismissal fun s s' => Upheld debt s → Upheld debt s' where
  refl _ ht := ht
  trans h h' ht := h' (h ht)
  unlink _ r ht := ht.unlink r
  check _ hw ht := by
    refine ht.prune (fun task hin => ?_) hw
    obtain ⟨fk, -, rfl⟩ := List.mem_map.mp hin
    trivial
  drop hs' ht := ht.dropRelationship hs'

/-! ## Tables -/

theorem Upheld.appendTable (h : Upheld debt s) (tbl : Table) : Upheld debt (s.appendTable tbl) := by
  have hs := h.sound
  refine h.keeps (hs.appendTable tbl) (by simp [Schema.appendTable]) (fun t ht => ?_)
    ⟨fun r hl => (hs.isLive_appendTable tbl r).symm.trans hl, fun r _ => parent?_appendTable tbl s r,
      fun r _ => mappingsOf_appendTable tbl s r, fun c _ => owner?_appendTable tbl s c,
      fun c _ => ?_, fun t => .inr (.of_eq (columnsOf_appendTable hs tbl t))⟩
  -- the new table cascades as well
  · unfold Roster.contains at ht
    unfold Schema.cascades
    rw [get?_appendTable] at ht ⊢
    split at ht
    · rename_i heq
      simp [heq, Table.cascades, h.byDefault]
    · rename_i hne
      rw [if_neg hne]
      exact h.awake t ht
  · unfold Schema.rank?
    rw [(appendTable_objects tbl s).1]

theorem Upheld.eraseTable (h : Upheld debt s) {i : Nat} (hs' : (s.eraseTable t i).Sound) :
    Upheld debt (s.eraseTable t i) := by
  have hget : ∀ {c}, (s.eraseTable t i).columns.contains c = true →
      (s.eraseTable t i).columns.get? c = s.columns.get? c := by
    intro c hc
    unfold Roster.contains at hc
    rw [get?_column_eraseTable] at hc ⊢
    split at hc
    · exact absurd hc Bool.false_ne_true
    · rename_i hnot
      rw [if_neg hnot]
  refine h.keeps hs' (eraseTable_objects t i s).config (fun t' ht' => ?_)
    ⟨fun _ hl => isLive_of_eraseTable hl, fun r _ => parent?_eraseTable t i s r,
      fun r _ => mappingsOf_eraseTable t i s r, fun c hc => ?_, fun c hc => ?_, fun t' => ?_⟩
  · unfold Roster.contains at ht'
    unfold Schema.cascades
    rw [get?_eraseTable] at ht' ⊢
    split at ht'
    · exact absurd ht' Bool.false_ne_true
    · rename_i hne
      rw [if_neg hne]
      exact h.awake t' ht'
  · unfold Schema.owner?
    rw [hget hc]
  · unfold Schema.rank?
    rw [hget hc]
  · rw [columnsOf_eraseTable]
    split
    · exact .inl rfl
    · exact .inr (.refl _)

theorem Removes.upheld (h : Removes t s s') (ht : Upheld debt s) : Upheld debt s' := by
  obtain ⟨-, s₁, i, hd, ho⟩ := h
  obtain ⟨hp, hch⟩ := no_ends_of_chain hd ht.sound
  have ht₁ := coversDismissal_upheld.chain ht.sound hd ht
  exact (ht₁.eraseTable (ht₁.sound.eraseTable t i hp hch)).sameObjects ho

/-! ## Mappings -/

/-- Mapping by hand leaves the mappings of a live relationship in order. -/
theorem Maps.upheld (h : Maps r pk fk s s') (ht : Upheld debt s) : Upheld debt s' := by
  obtain ⟨p, ch, hp, hch, hpk, hfk⟩ := h.ends
  obtain ⟨s₁, hw, hs'⟩ := h.worksOff
  have hf := sameFrame_appendMapping r ⟨pk, fk⟩ s
  have hstored : (s.appendMapping r ⟨pk, fk⟩).columns.contains fk = true := by
    rw [columns_appendMapping]
    exact contains_of_owner? hfk
  have happ := ht.mirrors.appendMapping (contains_of_parent? hp) h.isKey fk
  have hs₀ := ht.sound.appendMapping (m := ⟨pk, fk⟩) hp hch hpk hfk h.unmapped
  -- until it is ordered, only the relationship itself is out of order
  have htends : ∀ tasks, (s.isLive r = true → .sync r ∈ tasks) →
      (∀ task ∈ tasks, Tendable (s.appendMapping r ⟨pk, fk⟩) task) →
      Tends debt (fun _ => False) tasks (s.appendMapping r ⟨pk, fk⟩) := by
    intro tasks hsync hmay
    refine ⟨hs₀, fun _ hin hx => (ht.awake.frame hf).asleep hin hx, happ.mono (fun _ _ _ _ h => h)
      (fun _ _ _ _ _ _ _ hin => .inl hin.1) (fun r' hl hin => ?_) (fun _ h => h.elim), hmay⟩
    obtain rfl := hin.resolve_left id
    exact .inl (hsync ((hf.isLive r').symm.trans hl))
  have hjoining : ∀ task ∈ s.joining r fk, Tendable (s.appendMapping r ⟨pk, fk⟩) task := by
    intro task hin
    obtain rfl := eq_of_mem_joining hin
    exact hstored
  rcases hs' with rfl | ⟨rfl, hno⟩
  · refine ht.of_tends hf (htends (s.joining r fk ++ [.sync r]) (fun _ => by simp) fun task hin => ?_)
      (hw.append (.task (.done _)))
    rcases List.mem_append.mp hin with hin | hin
    · exact hjoining task hin
    · obtain rfl := List.mem_singleton.mp hin
      trivial
  · refine ht.of_tends hf (htends _ (fun hl => ?_) hjoining) hw
    -- the parent of a live relationship cascades, so its mappings would have been ordered
    have hcasc := ht.sound.cascades_of_owner? ht.awake hpk
    have hlive := hno p hp
    rw [hl, hcasc] at hlive
    exact Bool.noConfusion hlive

theorem Marks.upheld {new : Bool} (h : Marks r new s s') (ht : Upheld debt s) : Upheld debt s' := by
  cases h with
  | plain _ => exact ht.markIdentifying ..
  | tightens _ _ _ hw =>
      refine (ht.markIdentifying r false true).grow (fun task hin => ?_) hw
      have hready := ht.sound.ready_marked r false true task hin
      obtain ⟨fk, -, rfl⟩ := List.mem_map.mp hin
      exact hready
  | loosens _ _ _ hw =>
      refine (ht.markIdentifying r true false).prune (fun task hin => ?_) hw
      obtain ⟨fk, -, rfl⟩ := List.mem_map.mp hin
      trivial

/-! ## Attaching -/

/-- A relationship that has become live is still to map the key of its parent. -/
theorem MirrorsBut.connected (h : MirrorsBut debt s) (hc : Connected r p ch s s')
    (hm : s.mappingsOf r = []) :
    MirrorsBut (fun r' x => debt r' x ∨ (r' = r ∧ x ∈ s'.primaryKey p)) s' := by
  have hnone : s'.mappingsOf r = [] := (hc.mappingsOf r).trans hm
  have hrank : ∀ x, s'.rank? x = s.rank? x := by
    intro x
    unfold Schema.rank?
    rw [hc.columns]
  have hkey : ∀ x, s'.isKey x = s.isKey x := fun x => isKey_congr (hrank x)
  have howner : ∀ x, s'.owner? x = s.owner? x := by
    intro x
    unfold Schema.owner?
    rw [hc.columns]
  have hlive : ∀ {r'}, r' ≠ r → s'.isLive r' = true → s.isLive r' = true := by
    intro r' hne hl
    simpa [hc.isLive, hne] using hl
  -- the new relationship owes all of its parent's key, the others owe nothing new
  constructor
  case straight =>
    intro r' m hl hin
    by_cases heq : r' = r
    · rw [heq, hnone] at hin
      exact absurd hin List.not_mem_nil
    · rw [hkey]
      exact h.straight r' m (hlive heq hl) (hc.mappingsOf r' ▸ hin)
  case complete =>
    intro r' p' x hl hp ho hk
    by_cases heq : r' = r
    · subst heq
      obtain rfl := Option.some.inj (hc.parent.symm.trans hp)
      exact .inr (.inr ⟨rfl, mem_primaryKey.mpr ⟨(hc.sound.listed _ x).mpr ho, hk⟩⟩)
    · rw [hc.mappingsOf]
      exact (h.complete r' p' x (hlive heq hl) ((hc.parent? r' heq).symm.trans hp)
        ((howner x).symm.trans ho) ((hkey x).symm.trans hk)).imp_right .inl
  case ordered =>
    intro r' hl
    by_cases heq : r' = r
    · refine .inl ?_
      unfold InOrder
      rw [heq, hnone]
      exact .nil
    · exact (h.ordered r' (hlive heq hl)).imp_left fun ho =>
        ho.congr (hc.mappingsOf r') fun m _ => hrank m.pk
  case numbered =>
    intro t
    exact (h.numbered t).imp_left fun hn =>
      hn.congr (.of_eq (hc.columnsOf t)) fun x _ => hrank x

/-- In a schema whose tables all cascade none is in secondary-change mode. -/
theorem Awake.not_isHolding (h : Awake s) (ht : s.tables.contains t = true) :
    s.isHolding t = false := by
  have hx := h t ht
  unfold Schema.cascades at hx
  unfold isHolding
  cases htbl : s.tables.get? t with
  | none => rfl
  | some tbl =>
      simp only [htbl, Option.any_some, Table.cascades, Bool.and_eq_true, Bool.not_eq_true'] at hx
      simpa using hx.2

/-- Whether a relationship that is attached from `p` to `ch` maps the key of its parent, or may miss
it: the key is owed, or the parent is the child itself, which is caught up with. -/
def Tolerates (debt : RelationshipId → ColumnId → Prop) (r : RelationshipId) (p ch : TableId)
    (auto : Bool) (s : Schema) : Prop :=
  auto = true ∨ p = ch ∨ ∀ x, s.owner? x = some p → s.isKey x = true → debt r x

/-- The child enters secondary-change mode, since it was not in it before. -/
theorem Awake.suspended_eq (h : s.Awake) (hch : s.tables.contains ch = true) :
    s.suspended ch = s.setSecondaryChange ch true := by
  unfold suspended
  rw [if_neg (by simp [h.not_isHolding hch])]

theorem Awake.switchesOf_connected (h : s.Awake) (hch : s.tables.contains ch = true)
    (hc : Connected r p ch (s.suspended ch) s') (t : TableId) :
    s'.switchesOf t = (s.setSecondaryChange ch true).switchesOf t :=
  (hc.switchesOf t).trans (by rw [h.suspended_eq hch])

/-- Meanwhile all other tables cascade. -/
theorem Awake.cascades_connected (h : s.Awake) (hch : s.tables.contains ch = true)
    (hc : Connected r p ch (s.suspended ch) s') (hne : t ≠ ch)
    (ht : s'.tables.contains t = true) : s'.cascades t = true := by
  have hshape := sameShape_suspended ch s
  rw [← Roster.mem_keys_iff, hc.tableKeys, Roster.mem_keys_iff, hshape.contains_table] at ht
  rw [cascades_of_switchesOf (h.switchesOf_connected hch hc t)]
  unfold Schema.cascades
  rw [get?_setSecondaryChange, if_neg hne]
  exact h t ht

/-- A relationship that is connected is about to map its parent's key, unless it owes it. -/
theorem Upheld.tends_wiring {auto : Bool} (h : Upheld debt s) (hatt : Attachable r p ch s)
    (howed : Tolerates debt r p ch auto s) (hc : Connected r p ch (s.suspended ch) s') :
    Tends (fun r' x => debt r' x ∨ s'.parent? r' = some ch) (fun t => t = ch)
      (if auto then (s'.primaryKey p).map (.map (s.suspended ch).tables.size r) else []) s' := by
  have hshape := sameShape_suspended ch s
  have hmode := h.awake.suspended_eq hatt.child
  have hcolumns : (s.suspended ch).columns = s.columns := by rw [hmode]; rfl
  have hm₀ : MirrorsBut debt (s.suspended ch) :=
    (hshape.keeps (fun _ => by rw [hmode]; rfl) fun _ => by rw [hmode]; rfl).mirrors
      (h.sound.of_sameShape hshape) h.mirrors
  have hm₁ := hm₀.connected hc (hatt.suspended h.sound ch).mappings
  refine ⟨hc.sound, fun t ht hx => ?_, hm₁.mono (fun _ _ _ _ h => h) (fun r' _ x _ _ _ _ hin => ?_)
    (fun _ _ h => h.elim) (fun _ h => h.elim), fun task hin => ?_⟩
  · by_cases heq : t = ch
    · exact ⟨heq, fun _ _ hp => .inr (heq ▸ hp)⟩
    · rw [h.awake.cascades_connected hatt.child hc heq ht] at hx
      exact Bool.noConfusion hx
  · rcases hin with hdebt | ⟨rfl, hx⟩
    · exact .inl (.inl hdebt)
    · rcases howed with rfl | rfl | howed
      · exact .inr (.inl ⟨_, List.mem_map_of_mem hx⟩)
      · exact .inl (.inr hc.parent)
      · obtain ⟨hlisted, hk⟩ := mem_primaryKey.mp hx
        refine .inl (.inl (howed x ?_ ?_))
        · have hown := (hc.sound.listed p x).mp hlisted
          rwa [Schema.owner?, hc.columns, hcolumns] at hown
        · rwa [isKey_of_columns (hc.columns.trans hcolumns)] at hk
  · split at hin
    · obtain ⟨x, hx, rfl⟩ := List.mem_map.mp hin
      obtain ⟨hlisted, hk⟩ := mem_primaryKey.mp hx
      exact ⟨by simp [hc.isLive], hk, p, hc.parent, (hc.sound.listed p x).mp hlisted⟩
    · exact absurd hin List.not_mem_nil

/-- A relationship that is attached maps its parent's key, unless it owes it, while the cascades of
the child are held back, so that afterwards only the child is behind. -/
theorem Upheld.lagging {auto : Bool} (h : Upheld debt s) (hatt : Attachable r p ch s)
    (howed : Tolerates debt r p ch auto s) (hw : Wires r p ch auto (s.suspended ch) s')
    (ha : s'.Acyclic) : Lagging debt ch s' := by
  obtain ⟨s₁, hc, hrun⟩ := hw.connected
  have hf := sameFrame_of_grow hrun
  refine ⟨hw.sound, ha, ?_, fun t hne ht => ?_, ((h.tends_wiring hatt howed hc).run hrun).mono
    (fun _ _ _ _ h => h) (fun r' _ _ _ _ _ _ hin => ?_) (fun r' _ hin => ?_) fun _ h => h⟩
  · obtain ⟨tbl, htbl⟩ := (Roster.contains_iff _ _).mp hatt.child
    have hx := h.awake ch hatt.child
    have hswitches := (hf.switchesOf ch).trans (h.awake.switchesOf_connected hatt.child hc ch)
    unfold switchesOf at hswitches
    rw [get?_setSecondaryChange, if_pos rfl, htbl] at hswitches
    obtain ⟨tbl', htbl', heq⟩ := Option.map_eq_some_iff.mp hswitches
    refine ⟨tbl', htbl', (congrArg Prod.fst heq).trans ?_⟩
    simp only [Schema.cascades, htbl, Option.any_some, Table.cascades, Bool.and_eq_true] at hx
    exact hx.1
  · rw [hf.contains_table] at ht
    rw [hf.cascades]
    exact h.awake.cascades_connected hatt.child hc hne ht
  · exact hin.imp_right fun hp => (hf.parent? r').trans hp
  · obtain ⟨t, hp, rfl⟩ := hin
    exact hp

/-- Attaching a relationship ends with the child caught up. -/
theorem Attaches.upheld {auto : Bool} (h : Attaches r p ch auto s s') (ht : Upheld debt s)
    (ha : s.Acyclic) (hatt : Attachable r p ch s) (howed : Tolerates debt r p ch auto s) :
    Upheld debt s' := by
  have hlag := ht.lagging hatt howed h.wires (ha.wired ht.sound hatt h.wires)
  rcases h.settles with ⟨hholds, -⟩ | ⟨-, hexits⟩
  · rw [ht.awake.not_isHolding hatt.child] at hholds
    exact absurd hholds Bool.noConfusion
  · obtain ⟨hawake, hmirrors⟩ := hlag.exits hexits
    obtain ⟨s₁, hc, hrun⟩ := h.wires.connected
    have hconfig := ((sameFrame_of_grow hrun).config.trans hc.config).trans
      (sameShape_suspended ch s).config
    exact ⟨h.sound, ((hexits.config h.wires.sound).trans hconfig) ▸ ht.byDefault, hawake, hmirrors⟩

/-- Attaching a relationship never stops halfway. -/
theorem Upheld.not_attachHalts {auto : Bool} (h : Upheld debt s) (ha : s.Acyclic)
    (hatt : Attachable r p ch s) (howed : Tolerates debt r p ch auto s) :
    ¬ AttachHalts r p ch auto s s' := fun hhalts =>
  (h.lagging hatt howed hhalts.wires
    (ha.wired h.sound hatt hhalts.wires)).not_exitFails hhalts.halts.fails

end Schema

namespace Op

open Schema

variable {s s' : Schema} {op : Op} {debt : RelationshipId → ColumnId → Prop}

/-- Whether an operation leaves it to the schema to look after the mappings: it does not switch
cascades off or hold them back, and does not register or unmap by hand. -/
def isTended : Op → Bool
  | addExportedKey _ _ => false
  | addImportedKey _ _ => false
  | removeMapping _ _ => false
  | attachRelationship _ _ _ auto => auto
  | setSecondaryChangeMode _ _ => false
  | setMagicEnabled _ _ => false
  | _ => true

/-- Whether an operation leaves it to the schema to look after the mappings, or leaves undone only
what is owed anyway. -/
def Upholds (debt : RelationshipId → ColumnId → Prop) : Op → Prop
  | attachRelationship r _ _ false => ∀ x, debt r x
  | op => op.isTended = true

theorem Upholds.of_isTended (hop : op.isTended = true) : op.Upholds debt := by
  cases op
  case attachRelationship r p ch auto =>
    obtain rfl : auto = true := hop
    rfl
  all_goals exact hop

theorem Upholds.tolerates {r : RelationshipId} {p ch : TableId} {auto : Bool}
    (h : (attachRelationship r p ch auto).Upholds debt) : Tolerates debt r p ch auto s := by
  cases auto with
  | true => exact .inl rfl
  | false => exact .inr (.inr fun x _ _ => h x)

/-- Such an operation keeps keys and mappings together. -/
theorem Does.upheld (h : op.Does s s') (hop : op.Upholds debt) (ht : Upheld debt s)
    (ha : s.Acyclic) : Upheld debt s' := by
  cases op
  case addTable tbl =>
    obtain rfl := h
    exact ht.appendTable tbl
  case removeTable t => exact AmidEvents.upheld h ht fun _ _ _ ht₁ h => h.upheld ht₁
  case addColumn t col =>
    obtain ⟨i, h⟩ := h
    exact h.upheld ht fun _ _ _ ht₁ h => h.upheld ht₁
  case insertColumn t i col => exact AmidEvents.upheld h ht fun _ _ _ ht₁ h => h.upheld ht₁
  case removeColumn c =>
    refine h.2.2.upheld ht fun s₁ _ ho ht₁ hw => ht₁.prune (fun task hin => ?_) hw
    obtain rfl := List.mem_singleton.mp hin
    exact (ho.sameShape.isRetained ht.sound c).trans h.2.1
  case moveColumn c i => exact Moves.upheld h ht
  case setPrimaryKeySeq c rank =>
    cases rank with
    | none =>
        refine h.2.upheld ht fun s₁ _ _ ht₁ hw => ht₁.prune (fun task hin => ?_) hw
        obtain rfl := List.mem_singleton.mp hin
        trivial
    | some k => exact h.2.upheld ht fun s₁ _ ho ht₁ h' => h'.upheld ht₁ (ho.columns ▸ h.1)
  case normalizePrimaryKey t =>
    obtain rfl := h
    exact ht.normalizeKey t none
  case createRelationship rel =>
    have hs' := Does.sound h ht.sound
    obtain ⟨-, -, rfl⟩ := h
    exact ht.storeRelationship hs'
  case setParent r t =>
    have hs' := Does.sound h ht.sound
    obtain ⟨hreg, -, -, rfl⟩ := h
    exact ht.changeRelationship hs' (SameObjects.raise _ _) hreg
  case setChild r t =>
    have hs' := Does.sound h ht.sound
    obtain ⟨hreg, -, -, rfl⟩ := h
    exact ht.changeRelationship hs' (SameObjects.raise _ _) hreg
  case removeExportedKey t r =>
    obtain ⟨-, h⟩ | ⟨-, rfl⟩ := h
    · exact h.upheld ht fun _ _ _ ht₁ h => coversDismissal_upheld.detaches ht₁.sound h ht₁
    · exact ht.deregisters (ht.sound.deregisters_exported r)
  case removeImportedKey t r =>
    obtain ⟨-, h⟩ | ⟨-, rfl⟩ := h
    · exact h.upheld ht fun _ _ _ ht₁ h => coversDismissal_upheld.detaches ht₁.sound h ht₁
    · exact ht.deregisters (ht.sound.deregisters_imported r)
  case removeRelationship r =>
    obtain ⟨-, h⟩ | ⟨-, rfl⟩ := h
    · exact h.upheld ht fun _ _ _ ht₁ h => coversDismissal_upheld.detaches ht₁.sound h ht₁
    · exact coversDismissal_upheld.discard ht.sound r ht
  case addMapping r pk fk => exact AmidEvents.upheld h ht fun _ _ _ ht₁ h => h.upheld ht₁
  case mapPrimaryKeyColumn r pk =>
    obtain ⟨hl, hk, ⟨p, ch, hp, -, ho⟩, -, h⟩ := h
    refine h.upheld ht fun s₁ s₂ hobj ht₁ hw => ht₁.grow (fun task hin => ?_) hw
    obtain rfl := List.mem_singleton.mp hin
    have htend : Tendable s (.map s.tables.size r pk) := ⟨hl, hk, p, hp, ho⟩
    exact htend.grows hobj.grows
  case attachRelationship r p ch auto =>
    obtain ⟨hatt, s₁, h, rfl⟩ := h
    have hstart := sameObjects_attachStart r s
    exact (h.upheld (ht.sameObjects hstart) (ha.inherits hstart.sameFrame.inherits)
      hatt.attachStart hop.tolerates).sameObjects (SameObjects.signal _ s₁)
  case setIdentifying r new => exact h.2.upheld ht fun _ _ _ ht₁ h => h.upheld ht₁
  case addExportedKey t r => simp [Upholds, isTended] at hop
  case addImportedKey t r => simp [Upholds, isTended] at hop
  case removeMapping r pk => simp [Upholds, isTended] at hop
  case setSecondaryChangeMode t on => simp [Upholds, isTended] at hop
  case setMagicEnabled t on => simp [Upholds, isTended] at hop
  all_goals exact ht.sameSkeleton h

/-- Such an operation never stops halfway. -/
theorem Upheld.not_halts (ht : Upheld debt s) (ha : s.Acyclic) (hop : op.Upholds debt) :
    ¬ op.Halts s s' := by
  intro h
  cases op
  case attachRelationship r p ch auto =>
    obtain ⟨hatt, s₁, h, -⟩ := h
    have hstart := sameObjects_attachStart r s
    exact (ht.sameObjects hstart).not_attachHalts (ha.inherits hstart.sameFrame.inherits)
      hatt.attachStart hop.tolerates h
  case setSecondaryChangeMode t on => simp [Upholds, isTended] at hop
  all_goals exact h

/-- Whatever it ends in, such an operation keeps keys and mappings together. -/
theorem upheld_perform (ht : Upheld debt s) (ha : s.Acyclic) (op : Op) (hop : op.Upholds debt) :
    Upheld debt (op.perform s).2 :=
  perform_preserves ht.sound op (fun _ h => h.upheld hop ht ha)
    (fun _ h => absurd h (Upheld.not_halts ht ha hop)) fun _ h => h.upheld ht

end Op

/-! ## Runs -/

/-- Whether a move leaves the mappings to the schema: it carries out an operation that does, or opens
or closes a compound edit. -/
def Move.isTended : Move → Bool
  | .edit op => op.isTended
  | .enter (.compound _) => true
  | .enter _ => false
  | .leave => true

namespace Moment

open Schema

/-- A moment between two moves that leave the mappings to the schema. -/
structure Tended (m : Moment) : Prop where
  schema : m.schema.Tended
  acyclic : m.schema.Acyclic
  scopes : ∀ opened ∈ m.scopes, opened = .compound

theorem Tended.after {m : Moment} (h : m.Tended) {move : Move} (hmove : move.isTended = true) :
    (m.after move).Tended := by
  have hs := h.schema.sound
  cases move with
  | edit op =>
      exact ⟨Op.upheld_perform h.schema h.acyclic op (.of_isTended hmove),
        Op.acyclic_perform hs h.acyclic op, h.scopes⟩
  | enter scope =>
      cases scope with
      | compound description =>
          have ho := SameObjects.signal (.compoundEditStarted description) m.schema
          refine ⟨h.schema.sameObjects ho, h.acyclic.inherits ho.sameFrame.inherits, ?_⟩
          intro opened hin
          rcases List.mem_cons.mp hin with rfl | hin
          · rfl
          · exact h.scopes opened hin
      | secondaryChange t => exact absurd hmove Bool.noConfusion
      | magicDisabled t => exact absurd hmove Bool.noConfusion
  | leave =>
      obtain ⟨s, scopes⟩ := m
      cases scopes with
      | nil => exact h
      | cons opened outer =>
          obtain rfl := h.scopes opened (List.mem_cons_self ..)
          have ho := SameObjects.signal .compoundEditEnded s
          exact ⟨h.schema.sameObjects ho, h.acyclic.inherits ho.sameFrame.inherits,
            fun opened hin => h.scopes opened (List.mem_cons_of_mem _ hin)⟩

theorem Tended.run {m : Moment} (h : m.Tended) {moves : List Move}
    (hmoves : ∀ move ∈ moves, move.isTended = true) : (m.run moves).Tended := by
  induction moves generalizing m with
  | nil => exact h
  | cons move moves ih =>
      rw [run_cons]
      exact ih (h.after (hmoves move (List.mem_cons_self ..)))
        fun move' hin => hmoves move' (List.mem_cons_of_mem _ hin)

/-- Asking whether a live relationship follows the key of its parent. -/
theorem perform_mappingMatchesKey {s : Schema} {r : RelationshipId} {p : TableId} (hs : s.Sound)
    (hp : s.parent? r = some p) (h : (s.mappingsOf r).map Mapping.pk = s.primaryKey p) :
    (Edit.mappingMatchesKey r).perform s = (.ok true, s) := by
  obtain ⟨rel, hrel, hpar⟩ := Option.bind_eq_some_iff.mp hp
  obtain ⟨tbl, htbl⟩ := (Roster.contains_iff _ _).mp (hs.parent_stored r p hp)
  have hm : s.mappingsOf r = rel.mappings := by simp [mappingsOf, hrel]
  refine Edit.Ends.perform_eq ?_
  unfold Edit.mappingMatchesKey
  simp only [Edit.ends_bind, Edit.ends_relationship_of hrel, hpar, Edit.ends_require_some,
    Edit.ends_discard, Edit.ends_table_of htbl, Edit.ends_ask, and_true]
  unfold mapsKeyOf
  rw [← hm, h]
  exact beq_self_eq_true _

/-- With cascades enabled from the start and left alone, after every move each live relationship
maps the key of its parent, column by column and in key order, and each table has its key columns
numbered `0`, `1`, … along its key. -/
theorem keys_mirrored {config : Config} (hconfig : config.magicByDefault = true) {moves : List Move}
    (hmoves : ∀ move ∈ moves, move.isTended = true) {s : Schema}
    (hs : s = ((start config).run moves).schema) :
    (∀ r, s.isLive r = true → (Edit.mappingMatchesKey r).perform s = (.ok true, s) ∧
      ∃ p, s.parent? r = some p ∧ (s.mappingsOf r).map Mapping.pk = s.primaryKey p) ∧
    ∀ t, (∀ c, c ∈ s.primaryKey t ↔ s.owner? c = some t ∧ s.isKey c = true) ∧
      (s.primaryKey t).map s.rank? = (List.range (s.primaryKey t).length).map some := by
  have hstart : (start config).Tended :=
    ⟨tended_ofConfig hconfig, acyclic_ofConfig config, fun _ hin => absurd hin List.not_mem_nil⟩
  have htended : s.Tended := hs ▸ (hstart.run hmoves).schema
  refine ⟨fun r hl => ?_, fun t => ⟨fun c => ?_, ?_⟩⟩
  · obtain ⟨p, -, hp, -⟩ := isLive_iff.mp hl
    have hmirrors := htended.mirrored.mappings_eq htended.sound hl hp
    exact ⟨perform_mappingMatchesKey htended.sound hp hmirrors, p, hp, hmirrors⟩
  · rw [mem_primaryKey, htended.sound.listed]
  · exact ((htended.mirrored.numbered t).resolve_right id).ranks

/-- Tables `a`, `b` and `c`, each exporting its key to the next; then a mapping that is there already
is asked for, which is refused, and the key of `a` gets a second column. -/
def exportingMoves : List Move :=
  [.edit (.addTable { name := "a" }),
    .edit (.addColumn ⟨1⟩ { name := "id", rank := some 0 }),
    .edit (.addTable { name := "b" }),
    .edit (.addTable { name := "c" }),
    .edit (.createRelationship { name := "ab", identifying := true }),
    .edit (.createRelationship { name := "bc" }),
    .edit (.attachRelationship ⟨1⟩ ⟨1⟩ ⟨2⟩ true),
    .edit (.attachRelationship ⟨2⟩ ⟨2⟩ ⟨3⟩ true),
    .edit (.addMapping ⟨2⟩ ⟨2⟩ ⟨3⟩),
    .edit (.addColumn ⟨1⟩ { name := "no", rank := some 0 })]

/-- The second key column of `a` has reached the key of `b`, and the mappings from `b` to `c`. -/
theorem keys_mirrored_exporting : ∃ s, s = ((start {}).run exportingMoves).schema ∧
    s.isLive ⟨2⟩ = true ∧ (Edit.mappingMatchesKey ⟨2⟩).perform s = (.ok true, s) ∧
    (s.mappingsOf ⟨2⟩).map Mapping.pk = [⟨2⟩, ⟨5⟩] ∧
    (s.primaryKey ⟨2⟩).map s.rank? = [some 0, some 1] := by
  have hmoves : ∀ move ∈ exportingMoves, move.isTended = true := by decide
  obtain ⟨hrels, hkeys⟩ := keys_mirrored (rfl : ({} : Config).magicByDefault = true) hmoves rfl
  have hlive : ((start {}).run exportingMoves).schema.isLive ⟨2⟩ = true := by decide +kernel
  have hparent : ((start {}).run exportingMoves).schema.parent? ⟨2⟩ = some ⟨2⟩ := by decide +kernel
  have hkey : ((start {}).run exportingMoves).schema.primaryKey ⟨2⟩ = [⟨2⟩, ⟨5⟩] := by
    decide +kernel
  obtain ⟨hask, p, hp, hmaps⟩ := hrels ⟨2⟩ hlive
  obtain rfl := Option.some.inj (hp.symm.trans hparent)
  have hranks := (hkeys ⟨2⟩).2
  rw [hkey] at hmaps hranks
  refine ⟨_, rfl, hlive, hask, hmaps, ?_⟩
  rw [hkey]
  exact hranks

end Moment

end KeyedSchema
