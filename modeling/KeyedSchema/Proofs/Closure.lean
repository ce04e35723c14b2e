import KeyedSchema.Proofs.KeyMembership
import KeyedSchema.Proofs.Upkeep

/-!
# Closure — what joins a key is mapped wherever the key goes

A column that joins the key of a table that cascades is mapped in every live relationship that the
table exports, and where the relationship is identifying the child column joins a key in turn. So
the columns that an edit puts into keys are closed under "is mapped to", however many ways lead
from one table to another. A schema may have gaps before: key columns that relationships do not map.
What an edit closes is what it has put into keys itself.

- `Closing`  : what may be unmapped during a run of promotions;
- `Enlarges` : what every edit comes to by which columns join keys.
-/

namespace KeyedSchema

namespace Schema

variable {s s₁ s' s'' : Schema} {t p ch : TableId} {c x : ColumnId} {r : RelationshipId}

/-! ## Runs of promotions -/

section

variable {task : Grow} {tasks new : List Grow} {debt : RelationshipId → ColumnId → Prop}

/-- How far a run of promotions has come: a key column of a table that cascades is mapped, or it was
left unmapped before, or a task is about it. -/
structure Closing (debt : RelationshipId → ColumnId → Prop) (tasks : List Grow) (s : Schema) :
    Prop where
  sound : s.Sound
  ready : ∀ task ∈ tasks, task.Ready s
  mapped : ∀ r t x, s.isLive r = true → s.parent? r = some t → s.cascades t = true →
    s.owner? x = some t → s.isKey x = true →
    x ∈ (s.mappingsOf r).map Mapping.pk ∨ Owed debt tasks r x

/-- A task is worked off if what it was about is mapped or left to the new tasks. -/
theorem Closing.advance (h : Closing debt (task :: tasks) s)
    (hpromote : ∀ r x depth, task = .promote depth x → (task.step s).2.isKey x = true →
      s.isKey x = true ∨ Owed debt ((task.step s).1 ++ tasks) r x)
    (hjoin : ∀ r t x depth, task = .join depth x → s.isLive r = true → s.parent? r = some t →
      s.cascades t = true → s.owner? x = some t → Owed debt ((task.step s).1 ++ tasks) r x)
    (hmap : ∀ r x depth, task = .map depth r x →
      x ∈ ((task.step s).2.mappingsOf r).map Mapping.pk) :
    Closing debt ((task.step s).1 ++ tasks) (task.step s).2 := by
  have hready := h.ready task (List.mem_cons_self ..)
  obtain ⟨hs', hg, hnext⟩ := h.sound.grow_step hready
  refine ⟨hs', fun next hin => ?_, fun r t x hl hp hcasc hown hkey => ?_⟩
  · rcases List.mem_append.mp hin with hin | hin
    · exact hnext next hin
    · exact hg.ready (h.ready next (List.mem_cons_of_mem _ hin))
  · rw [hg.frame.isLive] at hl
    rw [hg.frame.parent?] at hp
    rw [hg.frame.cascades] at hcasc
    -- a column that is in its key now was there before, or it has just been promoted
    have hold : s.isKey x = true ∨ Owed debt ((task.step s).1 ++ tasks) r x := by
      rcases h.sound.isKey_grow hready hkey with hkey | ⟨depth, heq⟩
      · exact .inl hkey
      · exact hpromote r x depth heq hkey
    refine hold.elim (fun hkey => ?_) .inr
    have hown : s.owner? x = some t := (hg.owner? (contains_of_isKey hkey)).symm.trans hown
    rcases h.mapped r t x hl hp hcasc hown hkey with hx | hx
    · exact .inl (List.map_subset _ (hg.mappingsOf r) hx)
    · by_cases hmapped : x ∈ ((task.step s).2.mappingsOf r).map Mapping.pk
      · exact .inl hmapped
      · exact .inr (hx.grow (fun depth heq => absurd (hmap r x depth heq) hmapped)
          fun depth heq => hjoin r t x depth heq hl hp hcasc hown)

theorem Closing.step (h : Closing debt (task :: tasks) s) :
    Closing debt ((task.step s).1 ++ tasks) (task.step s).2 := by
  have hready := h.ready task (List.mem_cons_self ..)
  cases task with
  | promote depth c =>
      refine h.advance (fun r x depth' heq hkey => ?_) (by simp) (by simp)
      obtain ⟨rfl, rfl⟩ := Grow.promote.inj heq
      cases depth with
      | zero => exact .inl hkey
      | succ depth =>
          simp only [Grow.step] at hkey ⊢
          split at hkey
          · exact .inr (.inr (.inr ⟨depth, List.mem_cons_self ..⟩))
          · exact .inl hkey
  | join depth c =>
      refine h.advance (by simp) (fun r t x depth' heq hl hp hcasc hown => ?_) (by simp)
      obtain ⟨rfl, rfl⟩ := Grow.join.inj heq
      simp only [Grow.step, hown, hcasc, if_true]
      refine .inr (.inl ⟨depth, List.mem_append_left _ (List.mem_map.mpr ⟨r, ?_, rfl⟩)⟩)
      exact (h.sound.mem_liveExportsOf_iff r t).mpr ⟨hl, hp⟩
  | map depth r c =>
      refine h.advance (by simp) (by simp) fun r' x depth' heq => ?_
      obtain ⟨-, rfl, rfl⟩ := Grow.map.inj heq
      obtain ⟨p, ch, hp, hch, hpk⟩ := hready
      simp only [Grow.step]
      split
      · assumption
      · obtain ⟨s₁, hmaps⟩ := h.sound.mapColumn hch hpk
        have hr : s₁.relationships.contains r = true := contains_of_parent?
          (((hmaps.place_sound h.sound hch).2.1.frame.parent? r).trans hp)
        rw [hmaps.append, mappingsOf_appendMapping hr, if_pos rfl]
        simp
  | sync r => exact h.advance (by simp) (by simp) (by simp)

theorem Closing.run (h : Closing debt tasks s) (hw : WorksOff Grow.step tasks s s') :
    Closing debt [] s' :=
  hw.invariant_all (J := Closing debt) (fun _ _ _ h => h.step) h

end

/-! ## Edits by which columns join keys -/

/-- Whether every column stays in its table, and a key column that is new is mapped in all live
relationships that its table exports, if the table cascades. -/
structure Enlarges (s s' : Schema) : Prop where
  owner? : ∀ c t, s.owner? c = some t → s'.owner? c = some t
  mapped : ∀ r t x, s'.isLive r = true → s'.parent? r = some t → s'.cascades t = true →
    s'.owner? x = some t → s'.isKey x = true →
    s.isKey x = true ∨ x ∈ (s'.mappingsOf r).map Mapping.pk

/-- No column is new in a key. -/
theorem Enlarges.of_isKey (howner : ∀ c t, s.owner? c = some t → s'.owner? c = some t)
    (hkey : ∀ x, s'.isKey x = true → s.isKey x = true) : Enlarges s s' :=
  ⟨howner, fun _ _ x _ _ _ _ hx => .inl (hkey x hx)⟩

/-- Ranks and the order of mappings may change afterwards. -/
theorem Enlarges.reranks (h : Enlarges s s₁) (hre : Reranks s₁ s')
    (hkey : ∀ x, s'.isKey x = true → s₁.isKey x = true) : Enlarges s s' := by
  refine ⟨fun c t hc => (hre.owner? c).trans (h.owner? c t hc), fun r t x hl hp hcasc hown hk => ?_⟩
  rw [hre.sameFrame.isLive] at hl
  rw [hre.sameFrame.parent?] at hp
  rw [hre.sameFrame.cascades] at hcasc
  rw [hre.owner?] at hown
  refine (h.mapped r t x hl hp hcasc hown (hkey x hk)).imp_right fun hx => ?_
  exact ((hre.mappingsOf r).map Mapping.pk).mem_iff.mpr hx

theorem Enlarges.amid {R : Schema → Schema → Prop} (h : AmidEvents R s s')
    (hR : ∀ s₁ s₂, SameObjects s s₁ → R s₁ s₂ → Enlarges s₁ s₂) : Enlarges s s' := by
  obtain ⟨s₁, s₂, h₁, hr, h₂⟩ := h
  have henlarges := (hR s₁ s₂ h₁ hr).reranks h₂.reranks fun x hx => (isKey_congr (h₂.rank? x)) ▸ hx
  refine ⟨fun c t hc => henlarges.owner? c t ((h₁.sameShape.owner? c).trans hc),
    fun r t x hl hp hcasc hown hk => ?_⟩
  exact (henlarges.mapped r t x hl hp hcasc hown hk).imp_left fun hx =>
    (isKey_congr (h₁.rank? x)) ▸ hx

/-- A run of promotions maps what has come into keys, if the columns that came into keys before it
are about to join them. -/
theorem Sound.enlarges {tasks : List Grow} (hs : s₁.Sound)
    (howner : ∀ c t, s.owner? c = some t → s₁.owner? c = some t)
    (hready : ∀ task ∈ tasks, task.Ready s₁)
    (hnew : ∀ x, s₁.isKey x = true → s.isKey x = true ∨ ∃ depth, .join depth x ∈ tasks)
    (hw : WorksOff Grow.step tasks s₁ s') : Enlarges s s' := by
  have hg := (hs.grow hready hw).2
  have hstart : Closing (fun _ x => s.isKey x = true) tasks s₁ :=
    ⟨hs, hready, fun r t x _ _ _ _ hk => .inr ((hnew x hk).imp_right .inr)⟩
  refine ⟨fun c t hc => ?_, fun r t x hl hp hcasc hown hk => ?_⟩
  · have hc₁ := howner c t hc
    exact (hg.owner? (contains_of_owner? hc₁)).trans hc₁
  · rcases (hstart.run hw).mapped r t x hl hp hcasc hown hk with hx | hx | hx | hx
    · exact .inr hx
    · exact .inl hx
    -- no task is left
    · obtain ⟨depth, hx⟩ := hx
      exact absurd hx List.not_mem_nil
    · obtain ⟨depth, hx⟩ := hx
      exact absurd hx List.not_mem_nil

theorem Inserts.enlarges {i : Nat} {col : Column} (h : Inserts t i col s s') (hs : s.Sound) :
    Enlarges s s' := by
  have hg := hs.grows_placeColumn t i col
  refine (hs.placeColumn h.table h.index col).enlarges
    (fun c t hc => (hg.owner? (contains_of_owner? hc)).trans hc) (fun task ht => ?_)
    (fun x hx => ?_) h.worksOff
  · split at ht
    · obtain rfl := List.mem_singleton.mp ht
      simp [contains_placeColumn]
    · exact absurd ht List.not_mem_nil
  -- the column itself is the only one that may be new in a key
  · unfold isKey at hx ⊢
    rw [rank?_placeColumn] at hx
    split at hx
    · rename_i heq
      have hkey : col.isKey = true := hx
      exact .inr ⟨s.tables.size, by simp [hkey, heq]⟩
    · exact .inl hx

theorem Places.enlarges {k : Nat} (h : Places c k s s') (hs : s.Sound)
    (hc : s.columns.contains c = true) : Enlarges s s' := by
  cases h with
  | joins hrank hw =>
      have hre := reranks_changeRank c none (some k) s
      refine (hre.sound hs).enlarges (fun c' t hc' => (hre.owner? c').trans hc') (fun task ht => ?_)
        (fun x hx => ?_) hw
      · obtain rfl := List.mem_singleton.mp ht
        exact (hre.sameShape.contains_column c).trans hc
      · unfold isKey at hx ⊢
        rw [rank?_changeRank c none (some k) s hc] at hx
        split at hx
        · rename_i heq
          exact .inr ⟨s.tables.size, by simp [heq]⟩
        · exact .inl hx
  | @moves old t hrank hown =>
      -- the column was in the key before
      have hkey : ∀ x, (s.changeRank c (some old) (some k)).isKey x = true → s.isKey x = true := by
        intro x hx
        unfold isKey at hx ⊢
        rw [rank?_changeRank c (some old) (some k) s hc] at hx
        split at hx
        · rename_i heq
          simp [heq, hrank]
        · exact hx
      have hre := reranks_changeRank c (some old) (some k) s
      have hchange : Enlarges s (s.changeRank c (some old) (some k)) :=
        .of_isKey (fun c' t hc' => (hre.owner? c').trans hc') hkey
      split
      · exact hchange.reranks (reranks_normalizeKey t (some c) _) fun x hx =>
          ((hre.sound hs).isKey_normalizeKey t (some c) x).symm.trans hx
      · exact hchange
  | stays => exact .of_isKey (fun _ _ hc => hc) fun _ hx => hx

theorem Maps.enlarges {pk fk : ColumnId} (h : Maps r pk fk s s') (hs : s.Sound) :
    Enlarges s s' := by
  obtain ⟨p, ch, hp, hch, hpk, hfk⟩ := h.ends
  obtain ⟨s₁, hw, hs'⟩ := h.worksOff
  have happ := hs.appendMapping (m := ⟨pk, fk⟩) hp hch hpk hfk h.unmapped
  have hrun : Enlarges s s₁ := by
    refine happ.enlarges (fun c t hc => ?_) (ready_joining (contains_of_owner? hfk))
      (fun x hx => .inl ?_) hw
    · rw [owner?_appendMapping, hc]
    · rwa [isKey_of_columns (columns_appendMapping r ⟨pk, fk⟩ s)] at hx
  rcases hs' with rfl | ⟨rfl, -⟩
  · exact hrun.reranks (reranks_syncMappingOrder r s₁) fun x hx =>
      (isKey_syncMappingOrder r s₁ x).symm.trans hx
  · exact hrun

theorem Marks.enlarges (h : Marks r true s s') (hs : s.Sound) : Enlarges s s' := by
  have howner : ∀ old c t, s.owner? c = some t → (s.markIdentifying r old true).owner? c = some t :=
    fun old c t hc => ((sameShape_markIdentifying r old true s).owner? c).trans hc
  have hkey : ∀ old x, (s.markIdentifying r old true).isKey x = true → s.isKey x = true :=
    fun old x hx => (isKey_of_columns (columns_markIdentifying r old true s) x).symm.trans hx
  cases h with
  | plain _ => exact .of_isKey (howner _) (hkey _)
  | tightens _ _ _ hw =>
      exact (hs.of_sameShape (sameShape_markIdentifying r false true s)).enlarges (howner _)
        (hs.ready_marked r _ _) (fun x hx => .inl (hkey _ x hx)) hw
  | loosens hnew _ _ _ => exact absurd hnew Bool.noConfusion

end Schema

namespace Op

open Schema

variable {s s' : Schema} {op : Op} {reply : Reply}

/-- Whether an operation is one by which columns join keys. -/
def enlarges : Op → Bool
  | addColumn _ col => col.isKey
  | insertColumn _ _ col => col.isKey
  | setPrimaryKeySeq _ rank => rank.isSome
  | addMapping _ _ _ => true
  | mapPrimaryKeyColumn _ _ => true
  | setIdentifying _ identifying => identifying
  | _ => false

theorem Does.enlarges (h : op.Does s s') (hop : op.enlarges = true) (hs : s.Sound) :
    Enlarges s s' := by
  cases op
  case addColumn t col =>
    obtain ⟨i, h⟩ := h
    exact .amid h fun _ _ ho h => h.enlarges (hs.of_sameObjects ho)
  case insertColumn t i col => exact .amid h fun _ _ ho h => h.enlarges (hs.of_sameObjects ho)
  case setPrimaryKeySeq c rank =>
    cases rank with
    | none => exact absurd hop Bool.noConfusion
    | some k =>
        exact .amid h.2 fun _ _ ho h' => h'.enlarges (hs.of_sameObjects ho) (ho.columns ▸ h.1)
  case addMapping r pk fk => exact .amid h fun _ _ ho h => h.enlarges (hs.of_sameObjects ho)
  case mapPrimaryKeyColumn r pk =>
    obtain ⟨-, -, hready, -, h⟩ := h
    refine .amid h fun _ _ ho hw => (hs.of_sameObjects ho).enlarges (fun _ _ hc => hc)
      (fun task ht => ?_) (fun x hx => .inl hx) hw
    obtain rfl := List.mem_singleton.mp ht
    exact ho.grows.ready hready
  case setIdentifying r new =>
    obtain rfl : new = true := hop
    exact .amid h.2 fun _ _ ho h => h.enlarges (hs.of_sameObjects ho)
  all_goals exact absurd hop Bool.noConfusion

/-- An operation by which columns join keys does not set columns adrift. -/
theorem not_unmoors (hop : op.enlarges = true) (r : RelationshipId) (m : Mapping) :
    ¬ (Move.edit op).Unmoors s r m := by
  unfold Move.Unmoors
  cases op
  case setPrimaryKeySeq c rank =>
    cases rank with
    | none => exact absurd hop Bool.noConfusion
    | some k => simp [Move.registered?, Move.demoted?]
  case addExportedKey | addImportedKey => exact absurd hop Bool.noConfusion
  all_goals simp [Move.registered?, Move.demoted?]

end Op

namespace Schema

variable {s s' : Schema} {op : Op} {reply : Reply}

/-- In a schema that can be reached, an operation by which columns join keys takes no column out of
its table, and closes what it puts into keys: a key column that is new, in a table that cascades, is
mapped in every live relationship that the table exports. Where this is identifying and did not map
the column before, the child column is in the key of the child. -/
theorem Reachable.promotion_closed (h : s.Reachable) (hop : op.enlarges = true)
    (hok : op.perform s = (.ok reply, s')) :
    (∀ c t, s.owner? c = some t → s'.owner? c = some t) ∧
      ∀ t x, s'.owner? x = some t → s'.isKey x = true → s.isKey x = false →
        s'.cascades t = true → ∀ r ∈ s'.liveExportsOf t,
          x ∈ (s'.mappingsOf r).map Mapping.pk ∧
            (s'.isIdentifying r = true → x ∉ (s.mappingsOf r).map Mapping.pk →
              ∀ m ∈ s'.mappingsOf r, m.pk = x →
                ∃ ch, s'.child? r = some ch ∧ m.fk ∈ s'.primaryKey ch) := by
  have hs := h.sound
  have hdoes := (Op.edit_ends hs op).of_ok hok
  have hs' := hdoes.sound hs
  have henlarges := hdoes.enlarges hop hs
  refine ⟨henlarges.owner?, fun t x hown hkey hnew hcasc r hr => ?_⟩
  obtain ⟨hl, hp⟩ := (hs'.mem_liveExportsOf_iff r t).mp hr
  refine ⟨?_, fun hid hunmapped m hm hpk => ?_⟩
  · refine (henlarges.mapped r t x hl hp hcasc hown hkey).resolve_left fun hold => ?_
    exact absurd (hold.symm.trans hnew) Bool.noConfusion
  · obtain ⟨p, ch, -, hch, -, hfk⟩ := hs'.mapped r m hm
    refine ⟨ch, hch, mem_primaryKey.mpr ⟨(hs'.listed ch m.fk).mpr hfk, ?_⟩⟩
    -- a mapping that is new is not adrift
    rw [← Bool.not_eq_false]
    intro hout
    have hadrift : s'.Adrift r m := ⟨hl, hid, hm, hout⟩
    have hbefore := (hdoes.adrift hs h.acyclic hadrift).resolve_right (Op.not_unmoors hop r m)
    exact hunmapped (List.mem_map.mpr ⟨m, hbefore.mapped, hpk⟩)

/-- Two ways lead down from one table to another, which has a column outside of its key. -/
def diamondMoves : List Move :=
  [.edit (.addTable { name := "a" }), .edit (.addTable { name := "b" }),
    .edit (.addTable { name := "c" }), .edit (.addTable { name := "d" }),
    .edit (.addColumn ⟨4⟩ { name := "id" }),
    .edit (.createRelationship { name := "ab", identifying := true }),
    .edit (.createRelationship { name := "ac", identifying := true }),
    .edit (.createRelationship { name := "bd", identifying := true }),
    .edit (.createRelationship { name := "cd", identifying := true }),
    .edit (.attachRelationship ⟨1⟩ ⟨1⟩ ⟨2⟩ true), .edit (.attachRelationship ⟨2⟩ ⟨1⟩ ⟨3⟩ true),
    .edit (.attachRelationship ⟨3⟩ ⟨2⟩ ⟨4⟩ true), .edit (.attachRelationship ⟨4⟩ ⟨3⟩ ⟨4⟩ true)]

/-- The tables once the moves are made. -/
def diamond : Schema := ((Moment.start {}).run diamondMoves).schema

/-- The tables once a key column has come into the first one. -/
def keyedDiamond : Schema :=
  ((Op.addColumn ⟨1⟩ { name := "id", rank := some 0 }).perform diamond).2

/-- A key column that comes into the first table makes one in each of the tables in between, and
both of these are mapped to the column that is there in the last one. -/
theorem promotion_closed_diamond : diamond.Reachable ∧
    (Op.addColumn ⟨1⟩ { name := "id", rank := some 0 }).perform diamond =
      (.ok (.column ⟨2⟩), keyedDiamond) ∧
    keyedDiamond.owner? ⟨4⟩ = some ⟨3⟩ ∧ keyedDiamond.isKey ⟨4⟩ = true ∧
    diamond.isKey ⟨4⟩ = false ∧ keyedDiamond.mappingsOf ⟨4⟩ = [⟨⟨4⟩, ⟨1⟩⟩] ∧
    ⟨4⟩ ∈ (keyedDiamond.mappingsOf ⟨4⟩).map Mapping.pk ∧
    ∃ ch, keyedDiamond.child? ⟨4⟩ = some ch ∧ ⟨1⟩ ∈ keyedDiamond.primaryKey ch := by
  have hreach : diamond.Reachable := ⟨{}, diamondMoves, rfl⟩
  have hreply : ((Op.addColumn ⟨1⟩ { name := "id", rank := some 0 }).perform diamond).1 =
      .ok (.column ⟨2⟩) := by decide +kernel
  have hok : (Op.addColumn ⟨1⟩ { name := "id", rank := some 0 }).perform diamond =
      (.ok (.column ⟨2⟩), keyedDiamond) := by
    unfold keyedDiamond
    rw [← hreply]
  have hown : keyedDiamond.owner? ⟨4⟩ = some ⟨3⟩ := by decide +kernel
  have hkey : keyedDiamond.isKey ⟨4⟩ = true := by decide +kernel
  have hnew : diamond.isKey ⟨4⟩ = false := by decide +kernel
  have hcasc : keyedDiamond.cascades ⟨3⟩ = true := by decide +kernel
  have hexport : ⟨4⟩ ∈ keyedDiamond.liveExportsOf ⟨3⟩ := by decide +kernel
  have hid : keyedDiamond.isIdentifying ⟨4⟩ = true := by decide +kernel
  have hm : keyedDiamond.mappingsOf ⟨4⟩ = [⟨⟨4⟩, ⟨1⟩⟩] := by decide +kernel
  have hop : (Op.addColumn ⟨1⟩ { name := "id", rank := some 0 }).enlarges = true := rfl
  have hclosed := (hreach.promotion_closed hop hok).2 ⟨3⟩ ⟨4⟩ hown hkey hnew hcasc ⟨4⟩ hexport
  exact ⟨hreach, hok, hown, hkey, hnew, hm, hclosed.1,
    hclosed.2 hid (by decide +kernel) ⟨⟨4⟩, ⟨1⟩⟩ (hm ▸ List.mem_singleton_self _) rfl⟩

end Schema

end KeyedSchema
