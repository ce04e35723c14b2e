import KeyedSchema.Proofs.Scripting
import KeyedSchema.Proofs.Sparing

/-!
# Introducing — a new relationship that is not mapped yet

A script introduces a relationship by creating it without ends and attaching it. If its mappings
are listed, attaching maps nothing by itself; but the child is caught up with, and if it was behind
its key, that may map columns in the new relationship as well. These are columns that have joined
the key of its parent meanwhile, or the whole key if the parent is the child itself.

- `Adds`             : what attaching without mapping adds to the relationship;
- `Introduces`       : what a relationship that has been introduced is like;
- `introduce_ends`   : introducing is refused only because of a circle.
-/

namespace KeyedSchema

namespace Schema

open Relation

variable {s s' s'' s₀ : Schema} {t p ch : TableId} {r : RelationshipId} {config : Config}

/-! ## Attaching in a schema that a script has built -/

/-- A relationship that is not live may be said to owe anything, since it is not asked. -/
theorem Upheld.owing (h : Upheld (fun _ _ => True) s) (hdead : s.isLive r = false)
    (owed : ColumnId → Prop) : Upheld (fun r' x => r' ≠ r ∨ owed x) s := by
  refine ⟨h.sound, h.byDefault, h.awake, h.mirrors.mono (fun _ _ _ _ h => h)
    (fun r' _ _ hl _ _ _ _ => .inl ?_) (fun _ _ h => h) fun _ h => h⟩
  rintro rfl
  exact absurd (hdead.symm.trans hl) Bool.noConfusion

theorem Scripted.hasMagic (h : Scripted config s) (ht : s.tables.contains t = true) :
    s.hasMagic t = config.magicByDefault := by
  have hswitches := h.switchesOf ht
  unfold Schema.switchesOf at hswitches
  obtain ⟨tbl, htbl, heq⟩ := Option.map_eq_some_iff.mp hswitches
  unfold Schema.hasMagic
  rw [htbl]
  exact congrArg Prod.fst heq

/-- With magic off by default, no table is caught up with. -/
theorem Scripted.exempt (h : Scripted config s) (hch : s.tables.contains ch = true)
    (hmagic : config.magicByDefault = false) : s.Exempt ch :=
  .inr ((h.hasMagic hch).trans hmagic)

theorem Attachable.not_isLive (h : Attachable r p ch s) (hs : s.Sound) : s.isLive r = false := by
  rw [Bool.eq_false_iff]
  intro hl
  obtain ⟨p', -, -, -, hexp, -⟩ := isLive_iff.mp hl
  exact (notMem_of_not_isRegistered hs h.registered).1 p' hexp

/-- Attaching never stops halfway. -/
theorem Scripted.not_attachHalts {auto : Bool} (h : Scripted config s)
    (hatt : Attachable r p ch s) : ¬ AttachHalts r p ch auto s s' := by
  intro hhalts
  cases hmagic : config.magicByDefault with
  | true =>
      have htol : Tolerates (fun _ _ => True) r p ch auto s := .inr (.inr fun _ _ _ => trivial)
      exact (h.upheld hmagic).not_attachHalts h.acyclic hatt htol hhalts
  | false =>
      -- a table whose magic is off is not caught up with
      obtain ⟨tbl, htbl, hon, -⟩ := hhalts.halts.fails
      have hoff := (hhalts.wires.hasMagic.trans (h.hasMagic hatt.child)).trans hmagic
      rw [Schema.hasMagic, htbl, Option.any_some, hon] at hoff
      exact Bool.noConfusion hoff

/-- What attaching without mapping comes to: columns stay in their tables and keys. The
relationship maps those columns of its parent's key that were in no key before, and if its parent
is the child that is caught up with (`own`), the whole key. -/
structure Adds (r : RelationshipId) (p : TableId) (own : Prop) (s s' : Schema) : Prop where
  lasts : Lasts s s'
  fresh : ¬ own → ∀ m ∈ s'.mappingsOf r, s.isKey m.pk = false
  straight : ∀ m ∈ s'.mappingsOf r, s'.isKey m.pk = true
  mapped : ∀ x, s'.owner? x = some p → s'.isKey x = true →
    x ∈ (s'.mappingsOf r).map Mapping.pk ∨ (¬ own ∧ s.isKey x = true)

theorem Adds.of_columns {own : Prop} (h : Adds r p own s s') (hcolumns : s.columns = s₀.columns) :
    Adds r p own s₀ s' where
  lasts := (lasts_of_columns hcolumns).trans h.lasts
  fresh hown m hm := (isKey_of_columns hcolumns m.pk).symm.trans (h.fresh hown m hm)
  straight := h.straight
  mapped x ho hk := (h.mapped x ho hk).imp_right fun ⟨hown, hold⟩ =>
    ⟨hown, (isKey_of_columns hcolumns x).symm.trans hold⟩

theorem Adds.sameObjects {own : Prop} (h : Adds r p own s s') (ho : SameObjects s' s'') :
    Adds r p own s s'' := by
  have hmappings : s''.mappingsOf r = s'.mappingsOf r := by
    unfold Schema.mappingsOf
    rw [ho.relationships]
  have hkey := isKey_of_columns ho.columns
  refine ⟨h.lasts.trans (lasts_of_columns ho.columns), fun hown m hm => ?_, fun m hm => ?_,
    fun x hx hk => ?_⟩
  · exact h.fresh hown m (hmappings ▸ hm)
  · exact (hkey m.pk).trans (h.straight m (hmappings ▸ hm))
  · rw [hmappings]
    exact h.mapped x ((ho.sameShape.owner? x).symm.trans hx) ((hkey x).symm.trans hk)

theorem Linked.adds {own : Prop} (h : Linked r p ch s s') (hown : ¬ own) : Adds r p own s s' where
  lasts := lasts_of_columns h.columns
  fresh _ _ hm := absurd (h.mappingsOf ▸ hm) List.not_mem_nil
  straight _ hm := absurd (h.mappingsOf ▸ hm) List.not_mem_nil
  mapped x _ hk := .inr ⟨hown, (isKey_of_columns h.columns x).symm.trans hk⟩

theorem Attaches.adds (h : Attaches r p ch false s s') (hup : Upheld (fun _ _ => True) s)
    (ha : s.Acyclic) (hatt : Attachable r p ch s) : Adds r p (p = ch) s s' := by
  have hlinked := h.linked hatt.mappings
  have hmore := hup.owing (hatt.not_isLive hup.sound) fun x => p ≠ ch ∧ s.isKey x = true
  have htol : Tolerates (fun r' x => r' ≠ r ∨ (p ≠ ch ∧ s.isKey x = true)) r p ch false s := by
    by_cases hself : p = ch
    · exact .inr (.inl hself)
    · exact .inr (.inr fun x _ hk => .inr ⟨hself, hk⟩)
  have hlag := hmore.lagging hatt htol h.wires (ha.wired hup.sound hatt h.wires)
  rcases h.settles with ⟨hholds, -⟩ | ⟨-, hexits⟩
  · exact absurd ((hup.awake.not_isHolding hatt.child).symm.trans hholds) Bool.noConfusion
  have hcolumns : ∀ x, (s.wired r p ch false).isKey x = s.isKey x :=
    isKey_of_columns hlinked.columns
  obtain ⟨hl, hp, -⟩ := h.live hatt.mappings
  have hcaught := (hlag.exits hexits).2
  refine ⟨(lasts_of_columns hlinked.columns).trans (hlag.lasts hexits), fun hself m hm => ?_,
    fun m hm => (hcaught.straight r m hl hm).resolve_right id, fun x hown hk => ?_⟩
  · rw [Bool.eq_false_iff]
    intro hk
    have hout : (s.wired r p ch false).parent? r ≠ some ch := fun hp =>
      hself (Option.some.inj (hlinked.parent.symm.trans hp))
    have hm₁ := hlag.spares hexits hout m hm ((hcolumns _).trans hk)
    rw [hlinked.mappingsOf] at hm₁
    exact absurd hm₁ List.not_mem_nil
  · refine (hcaught.complete r p x hl hp hown hk).imp_right fun howed => ?_
    exact howed.resolve_left fun hne => hne rfl

/-- The child is caught up with if its magic is on. -/
theorem Scripted.adds (h : Scripted config s) (hatt : Attachable r p ch s)
    (hattaches : Attaches r p ch false s s') :
    Adds r p (p = ch ∧ config.magicByDefault = true) s s' := by
  cases hmagic : config.magicByDefault with
  | true => simpa using hattaches.adds (h.upheld hmagic) h.acyclic hatt
  | false =>
      have hexempt := h.exempt hatt.child hmagic
      exact (hattaches.linked_of_atRest h.sound hatt.mappings (.inl hexempt) fun _ =>
        .inl hexempt).adds (by simp)

/-! ## Introducing a relationship -/

/-- What introducing a relationship without mapping comes to: it is live between its tables, and
catching up with the child has added to it what `Adds` says, which is nothing if the child is not
behind or its key does not feed into the parent. -/
structure Introduces (config : Config) (r : RelationshipId) (p ch : TableId) (s s' : Schema) :
    Prop where
  isLive : s'.isLive r = true
  parent : s'.parent? r = some p
  child : s'.child? r = some ch
  adds : Adds r p (p = ch ∧ config.magicByDefault = true) s s'
  unmapped : ¬ (p = ch ∧ config.magicByDefault = true) → config.magicByDefault = false ∨
    s.needsReconcile ch = false ∨ ¬ ReflTransGen s.Feeds ch p → s'.mappingsOf r = []

theorem Attaches.introduces (h : Attaches r p ch false s s') (hs : Scripted config s)
    (hatt : Attachable r p ch s) : Introduces config r p ch s s' := by
  obtain ⟨hl, hp, hch⟩ := h.live hatt.mappings
  refine ⟨hl, hp, hch, hs.adds hatt h, fun hown hquiet => ?_⟩
  -- a relationship from the child to itself is introduced with magic off only
  have hself (heq : p = ch) : s.Exempt ch :=
    hs.exempt hatt.child (Bool.eq_false_iff.mpr fun hon => hown ⟨heq, hon⟩)
  have hunmapped (hrest : s.AtRest ch) : s'.mappingsOf r = [] :=
    (h.linked_of_atRest hs.sound hatt.mappings hrest fun heq => .inl (hself heq)).mappingsOf
  rcases hquiet with hmagic | hneeds | hout
  · exact hunmapped (.inl (hs.exempt hatt.child hmagic))
  · exact hunmapped (.inr hneeds)
  · exact h.unmapped hatt.mappings hout

/-- Before it, what is not seen in columns, in what there is to catch up with or in links may have
been otherwise. -/
theorem Introduces.of_start {s₁ : Schema} (h : Introduces config r p ch s₁ s')
    (hcolumns : s₁.columns = s.columns)
    (hneeds : s.needsReconcile ch = false → s₁.needsReconcile ch = false) (hfeeds : Inherits s s₁) :
    Introduces config r p ch s s' where
  isLive := h.isLive
  parent := h.parent
  child := h.child
  adds := h.adds.of_columns hcolumns
  unmapped hown hquiet := h.unmapped hown <| hquiet.imp_right <| .imp hneeds fun hout hwalk =>
    hout (ReflTransGen.mono (fun _ _ => hfeeds.feeds) _ _ hwalk)

theorem Introduces.sameObjects {s'' : Schema} (h : Introduces config r p ch s s')
    (ho : SameObjects s' s'') : Introduces config r p ch s s'' where
  isLive := (ho.sameFrame.isLive r).trans h.isLive
  parent := (ho.sameFrame.parent? r).trans h.parent
  child := (ho.sameFrame.child? r).trans h.child
  adds := h.adds.sameObjects ho
  unmapped hown hquiet := by
    unfold Schema.mappingsOf
    rw [ho.relationships]
    exact h.unmapped hown hquiet

end Schema

namespace Edit

open Schema

variable {config : Config} {s : Schema} {p ch : TableId}

/-- Creating a relationship without ends and attaching it without mapping goes through, unless it
would close a circle. -/
theorem introduce_ends (h : Scripted config s) (hp : s.tables.contains p = true)
    (hch : s.tables.contains ch = true) {rel : Relationship} (hrp : rel.parent = none)
    (hrch : rel.child = none) :
    (createRelationship rel).Ends (fun r s₁ => (attachRelationship r p ch false).Ends
      (fun _ s' => r = ⟨s.lastRelationship + 1⟩ ∧ Scripted config s' ∧
        Introduces config r p ch s s')
      (fun e _ => e = .identifyingCycle r) s₁) (fun _ _ => False) s := by
  have hcreate : (Op.createRelationship rel).edit.Ends (fun _ s' => Scripted config s')
      (fun _ _ => True) s := Op.scripted_edit h rfl
  refine ((createRelationship_detached s hrp hrch).and ((ends_map _ _).mp hcreate)).mono ?_
    fun _ _ h => h.1.elim
  rintro r s₁ ⟨⟨rfl, rfl⟩, h₁⟩
  generalize hr : (⟨s.lastRelationship + 1⟩ : RelationshipId) = r
  generalize hs₁ : s.storeRelationship { rel with mappings := [] } = s₁ at h₁
  have hrep : Replaces r (some { rel with mappings := [] }) s s₁ :=
    hr ▸ hs₁ ▸ replaces_storeRelationship _ s
  have hexp : (∀ t, r ∉ s.exportsOf t) ∧ ∀ t, r ∉ s.importsOf t := hr ▸ h.sound.next_notMem
  have hp₁ : s₁.tables.contains p = true := hrep.tables ▸ hp
  have hch₁ : s₁.tables.contains ch = true := hrep.tables ▸ hch
  have hstored : s₁.relationships.contains r = true :=
    Roster.contains_of_get? ((hrep.get? r).trans (if_pos rfl))
  have hm : s₁.mappingsOf r = [] := (hrep.mappingsOf r).trans (if_pos rfl)
  have hreg : s₁.isRegistered r = false := by
    rw [Bool.eq_false_iff, ne_eq, isRegistered_iff h₁.sound.tables_nodup]
    simpa only [hrep.exportsOf, hrep.importsOf, not_exists, not_or] using
      fun t => ⟨hexp.1 t, hexp.2 t⟩
  cases hcycle : s₁.isIdentifying r && s₁.closesCycle r p ch with
  | true =>
      exact (attachRelationship_cycle hp₁ hch₁ hstored hm hreg hcycle).mono
        (fun _ _ h => h.elim) fun _ _ h => h
  | false =>
      have hatt : Attachable r p ch s₁ := ⟨hp₁, hch₁, hstored, hm, hreg, hcycle⟩
      have hkeeps : (Op.attachRelationship r p ch false).edit.Ends (fun _ s' => Scripted config s')
          (fun _ _ => True) s₁ := Op.scripted_edit h₁ rfl
      have hattach := attachRelationship_ends h₁.sound r p ch false
      have hstart := sameObjects_attachStart r s₁
      refine (hattach.and ((ends_map _ _).mp hkeeps)).mono ?_ ?_
      · rintro _ s' ⟨⟨-, s₂, hattaches, rfl⟩, h'⟩
        have hend := SameObjects.signal .compoundEditEnded s₂
        refine ⟨rfl, h', ?_⟩
        have hintroduces := hattaches.introduces (h₁.sameObjects hstart) hatt.attachStart
        refine (hintroduces.sameObjects hend).of_start (hstart.columns.trans hrep.columns) ?_ ?_
        · exact hrep.needsReconcile hexp.1
        · exact (hrep.inherits (hrep.not_isLive hexp.1)).trans hstart.sameFrame.inherits
      · rintro _ s' ⟨⟨hnot, -⟩ | ⟨-, s₂, hhalts, -⟩, -⟩
        · exact absurd hatt hnot
        · exact absurd hhalts ((h₁.sameObjects hstart).not_attachHalts hatt.attachStart)

end Edit

end KeyedSchema
