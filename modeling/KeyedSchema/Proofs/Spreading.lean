import KeyedSchema.Proofs.Cycle
import KeyedSchema.Proofs.Growing
import KeyedSchema.Proofs.Mirror

/-!
# Spreading — how far down promotions reach

A promotion goes on to the relationships that the table exports, and through those that are
identifying to the keys of their children. So work that starts at a table stays at tables that its
key feeds into, however indirectly, and no relationship gets a mapping that another table exports.

What is said here holds for every part of a schema that promotions do not lead out of. It is given
by the tables whose keys may change, and the tables whose key columns may be mapped.
-/

namespace KeyedSchema

/-- Whether a task stays within a part of the schema: it is about a key in `keys`, or maps a column
of a table in `exports`. -/
def Grow.Stays (keys exports : TableId → Prop) (s : Schema) : Grow → Prop
  | promote _ c => ∃ t, s.owner? c = some t ∧ keys t
  | join _ c => ∃ t, s.owner? c = some t ∧ keys t
  | map _ r x => s.isLive r = true ∧ ∃ p, s.parent? r = some p ∧ s.owner? x = some p ∧ exports p
  | sync _ => True

namespace Schema

/-- Whether promotions do not lead out of a part of the schema: what its keys consist of is mapped
within it, and the keys that this is mapped into are within it. -/
structure Fences (keys exports : TableId → Prop) (s : Schema) : Prop where
  exported : ∀ t, keys t → exports t
  fed : ∀ p ch, exports p → s.Feeds p ch → keys ch

theorem Fences.frame {keys exports : TableId → Prop} {s s' : Schema}
    (h : s.Fences keys exports) (hf : SameFrame s s') : s'.Fences keys exports :=
  ⟨h.exported, fun p ch hp hfeeds => h.fed p ch hp (hf.feeds ▸ hfeeds)⟩

/-- The keys that a table feeds into, with its own. -/
theorem fences_below (s : Schema) (t : TableId) :
    s.Fences (Relation.ReflTransGen s.Feeds t) (Relation.ReflTransGen s.Feeds t) :=
  ⟨fun _ h => h, fun _ _ hwalk hfeeds => hwalk.tail hfeeds⟩

/-- The keys that a table feeds into, without its own. -/
theorem fences_strictly_below (s : Schema) (t : TableId) :
    s.Fences (Relation.TransGen s.Feeds t) (Relation.ReflTransGen s.Feeds t) :=
  ⟨fun _ h => h.to_reflTransGen, fun _ _ hwalk hfeeds => .tail' hwalk hfeeds⟩

/-- The keys that a table feeds into, without its own and without what it exports. -/
theorem fences_beyond (s : Schema) (t : TableId) :
    s.Fences (Relation.TransGen s.Feeds t) (Relation.TransGen s.Feeds t) :=
  ⟨fun _ h => h, fun _ _ hwalk hfeeds => hwalk.tail hfeeds⟩

end Schema

namespace Grow.Stays

open Schema

variable {s s' : Schema} {keys exports : TableId → Prop} {task : Grow}

theorem ready (h : task.Stays keys exports s) : task.Ready s := by
  cases task with
  | promote depth c =>
      rcases h with ⟨t, hown, -⟩
      exact contains_of_owner? hown
  | join depth c =>
      rcases h with ⟨t, hown, -⟩
      exact contains_of_owner? hown
  | map depth r x =>
      rcases h with ⟨hl, p, hp, hown, -⟩
      rcases isLive_iff.mp hl with ⟨-, ch, -, hch, -⟩
      exact ⟨p, ch, hp, hch, hown⟩
  | sync r => trivial

theorem grows (h : task.Stays keys exports s) (hg : Grows s s') : task.Stays keys exports s' := by
  cases task with
  | promote depth c =>
      rcases h with ⟨t, hown, hin⟩
      exact ⟨t, (hg.owner? (contains_of_owner? hown)).trans hown, hin⟩
  | join depth c =>
      rcases h with ⟨t, hown, hin⟩
      exact ⟨t, (hg.owner? (contains_of_owner? hown)).trans hown, hin⟩
  | map depth r x =>
      rcases h with ⟨hl, p, hp, hown, hin⟩
      exact ⟨(hg.frame.isLive r).trans hl, p, (hg.frame.parent? r).trans hp,
        (hg.owner? (contains_of_owner? hown)).trans hown, hin⟩
  | sync r => trivial

/-- A task leads to none that is elsewhere. -/
theorem step (h : task.Stays keys exports s) (hs : s.Sound) (hpart : s.Fences keys exports) :
    ∀ next ∈ (task.step s).1, next.Stays keys exports (task.step s).2 := by
  have hg := (hs.grow_step h.ready).2.1
  intro next hnext
  cases task with
  | promote depth c =>
      cases depth with
      | zero => exact absurd hnext List.not_mem_nil
      | succ depth =>
          have hjoin : (Grow.join depth c).Stays keys exports s := h
          have hgoes : next = .join depth c := by
            simp only [Grow.step] at hnext
            split at hnext
            · exact List.mem_singleton.mp hnext
            · exact absurd hnext List.not_mem_nil
          exact hgoes ▸ hjoin.grows hg
  | join depth c =>
      rcases h with ⟨t, hown, hin⟩
      have hgoes : ∃ r ∈ s.liveExportsOf t, Grow.map depth r c = next := by
        simp only [Grow.step, hown] at hnext
        split at hnext
        · exact List.mem_map.mp hnext
        · exact absurd hnext List.not_mem_nil
      rcases hgoes with ⟨r, hr, rfl⟩
      rcases (hs.mem_liveExportsOf_iff r t).mp hr with ⟨hl, hp⟩
      have hmap : (Grow.map depth r c).Stays keys exports s :=
        ⟨hl, t, hp, hown, hpart.exported t hin⟩
      exact hmap.grows hg
  | map depth r x =>
      rcases h with ⟨hl, p, hp, hown, hin⟩
      rcases isLive_iff.mp hl with ⟨-, ch, -, hch, -⟩
      rcases hs.mapColumn hch hown with ⟨s₁, hmaps⟩
      simp only [Grow.step] at hnext ⊢
      split at hnext
      · exact absurd hnext List.not_mem_nil
      · rename_i hnew
        simp only [if_neg hnew]
        have hfk := (hmaps.sound hs hp hch hown hnew).2.2
        -- the child column is promoted if the relationship is a link
        split at hnext
        · rename_i hid
          rcases List.mem_cons.mp hnext with rfl | hnext
          · exact ⟨ch, hfk, hpart.fed p ch hin ⟨r, hl, hid, hp, hch⟩⟩
          · obtain rfl := List.mem_singleton.mp hnext
            trivial
        · obtain rfl := List.mem_singleton.mp hnext
          trivial
  | sync r => exact absurd hnext List.not_mem_nil

end Grow.Stays

namespace Schema

variable {s s' s₀ : Schema} {keys exports : TableId → Prop} {t p : TableId} {c : ColumnId}
  {r : RelationshipId} {task : Grow} {tasks : List Grow}

/-- How far a run has come: what is left to do stays within the part, and so have the mappings that
are new, and the key columns. -/
structure Spreads (keys exports : TableId → Prop) (s₀ : Schema) (tasks : List Grow) (s : Schema) :
    Prop where
  sound : s.Sound
  fences : s.Fences keys exports
  stays : ∀ task ∈ tasks, task.Stays keys exports s
  mappingsOf : ∀ r p, s.parent? r = some p → ¬ exports p → s.mappingsOf r ⊆ s₀.mappingsOf r
  isKey : ∀ c t, s.owner? c = some t → ¬ keys t → s.isKey c = true → s₀.isKey c = true

theorem Spreads.step (h : Spreads keys exports s₀ (task :: tasks) s) :
    Spreads keys exports s₀ ((task.step s).1 ++ tasks) (task.step s).2 := by
  have hstays := h.stays task (List.mem_cons_self ..)
  rcases h.sound.grow_step hstays.ready with ⟨hs', hg, -⟩
  refine ⟨hs', h.fences.frame hg.frame, fun next hnext => ?_, fun r p hp hout m hm => ?_,
    fun c t hown hout hk => ?_⟩
  · rcases List.mem_append.mp hnext with hnext | hnext
    · exact hstays.step h.sound h.fences next hnext
    · exact (h.stays next (List.mem_cons_of_mem _ hnext)).grows hg
  · rw [hg.frame.parent?] at hp
    rcases h.sound.mem_mappingsOf_grow hstays.ready hm with hm | ⟨depth, rfl⟩
    · exact h.mappingsOf r p hp hout hm
    · -- what is mapped is mapped within the part
      rcases hstays with ⟨-, p', hp', -, hin⟩
      obtain rfl := Option.some.inj (hp.symm.trans hp')
      exact absurd hin hout
  · rcases h.sound.isKey_grow hstays.ready hk with hk | ⟨depth, rfl⟩
    · have hstored := contains_of_isKey hk
      exact h.isKey c t ((hg.owner? hstored).symm.trans hown) hout hk
    · -- what is promoted is promoted within the part
      rcases hstays with ⟨t', hown', hin⟩
      rw [hg.owner? (contains_of_owner? hown')] at hown
      obtain rfl := Option.some.inj (hown.symm.trans hown')
      exact absurd hin hout

theorem Sound.spreads (hs : s.Sound) (hpart : s.Fences keys exports)
    (hstays : ∀ task ∈ tasks, task.Stays keys exports s) (hw : WorksOff Grow.step tasks s s') :
    Spreads keys exports s [] s' :=
  hw.invariant_all (J := Spreads keys exports s) (fun _ _ _ h => h.step)
    ⟨hs, hpart, hstays, fun _ _ _ _ => .refl _, fun _ _ _ _ hk => hk⟩

/-- Work within a part of the schema maps nothing that tables elsewhere export. -/
theorem Sound.mappingsOf_elsewhere (hs : s.Sound) (hpart : s.Fences keys exports)
    (hstays : ∀ task ∈ tasks, task.Stays keys exports s) (hw : WorksOff Grow.step tasks s s')
    (hp : s.parent? r = some p) (hout : ¬ exports p) : s'.mappingsOf r ⊆ s.mappingsOf r := by
  have hf := (hs.grow (fun task ht => (hstays task ht).ready) hw).2.frame
  exact (hs.spreads hpart hstays hw).mappingsOf r p ((hf.parent? r).trans hp) hout

/-- Work within a part of the schema adds no column to the keys of tables elsewhere. -/
theorem Sound.key_elsewhere (hs : s.Sound) (hpart : s.Fences keys exports)
    (hstays : ∀ task ∈ tasks, task.Stays keys exports s) (hw : WorksOff Grow.step tasks s s')
    (hout : ¬ keys t) (hown : s'.owner? c = some t) (hk : s'.isKey c = true) :
    s.owner? c = some t ∧ s.isKey c = true := by
  have hg := (hs.grow (fun task ht => (hstays task ht).ready) hw).2
  have hk₀ := (hs.spreads hpart hstays hw).isKey c t hown hout hk
  exact ⟨(hg.owner? (contains_of_isKey hk₀)).symm.trans hown, hk₀⟩

/-- A task changes ranks only in the keys that it is about. -/
theorem Sound.rank?_grow_step (hs : s.Sound) (hstays : task.Stays keys exports s)
    (hown : s.owner? c = some t) (hout : ¬ keys t) : (task.step s).2.rank? c = s.rank? c := by
  -- a column of a key that changes is another one
  have hne : ∀ c' t', s.owner? c' = some t' → keys t' → c ≠ c' := by
    rintro c' t' hown' hin rfl
    obtain rfl := Option.some.inj (hown.symm.trans hown')
    exact hout hin
  cases task with
  | promote depth c' =>
      rcases hstays with ⟨t', hown', hin⟩
      cases depth with
      | zero => rfl
      | succ depth =>
          simp only [Grow.step]
          split
          · rw [rank?_changeRank c' _ _ s (contains_of_owner? hown'), if_neg (hne c' t' hown' hin)]
          · rfl
  | join depth c' =>
      rcases hstays with ⟨t', hown', hin⟩
      simp only [Grow.step, hown']
      split
      · refine rank?_normalizeKey_of_not (some c') fun hmem => hne c t' ?_ hin rfl
        exact (hs.listed t' c).mp hmem.1
      · rfl
  | map depth r x =>
      rcases hstays.ready with ⟨p', ch, -, hch, hx⟩
      rcases hs.mapColumn hch hx with ⟨s₁, hmaps⟩
      simp only [Grow.step]
      split
      · rfl
      · rw [hmaps.append, rank?_appendMapping]
        rcases hmaps.place with ⟨rfl, -⟩ | ⟨-, i, -, key, -, rfl⟩
        · rfl
        · rw [rank?_placeColumn, if_neg (hs.ne_nextColumn (contains_of_owner? hown))]
  | sync r => exact rank?_syncMappingOrder r s c

/-- A task puts no relationship out of order that tables elsewhere export. -/
theorem Sound.inOrder_grow_step (hs : s.Sound) (hpart : s.Fences keys exports)
    (hstays : task.Stays keys exports s) (hl : s.isLive r = true) (hp : s.parent? r = some p)
    (hout : ¬ exports p) (h : s.InOrder r) : (task.step s).2.InOrder r := by
  -- the parent columns of `r` are in no key that the task is about
  have hranks : ∀ m ∈ s.mappingsOf r, (task.step s).2.rank? m.pk = s.rank? m.pk := fun m hm =>
    hs.rank?_grow_step hstays (hs.pk_owner hm hp) fun hin => hout (hpart.exported p hin)
  cases task with
  | promote depth c =>
      cases depth with
      | zero => exact h
      | succ depth =>
          have hmap : ((Grow.promote (depth + 1) c).step s).2.mappingsOf r = s.mappingsOf r := by
            simp only [Grow.step]
            split
            · exact mappingsOf_changeRank ..
            · rfl
          exact h.congr hmap fun m hm => hranks m (hmap ▸ hm)
  | join depth c =>
      simp only [Grow.step]
      split
      · exact h
      · split
        · exact h.normalizeKey hs hl _ _
        · exact h
  | map depth r' x =>
      have hne : r ≠ r' := by
        rintro rfl
        obtain ⟨-, p', hp', -, hin⟩ := hstays
        obtain rfl := Option.some.inj (hp.symm.trans hp')
        exact hout hin
      have hmap := hs.mappingsOf_map_of_ne hstays.ready hne
      exact h.congr hmap fun m hm => hranks m (hmap ▸ hm)
  | sync r' => exact h.syncMappingOrder r'

/-- What every task within a part of the schema keeps, work there keeps. -/
theorem Sound.invariant_elsewhere {P : Schema → Prop} (hs : s.Sound) (hpart : s.Fences keys exports)
    (hstays : ∀ task ∈ tasks, task.Stays keys exports s) (hw : WorksOff Grow.step tasks s s')
    (hstep : ∀ (task : Grow) s₁, s₁.Sound → Grows s s₁ → task.Stays keys exports s₁ → P s₁ →
      P (task.step s₁).2) (hP : P s) : P s' := by
  have hend := hw.invariant_all (J := fun tasks s₁ => (s₁.Sound ∧ Grows s s₁ ∧ P s₁) ∧
    ∀ task ∈ tasks, task.Stays keys exports s₁) (fun task tasks s₁ h => ?_)
    ⟨⟨hs, .refl s, hP⟩, hstays⟩
  · exact hend.1.2.2
  · obtain ⟨⟨hs₁, hg₁, hP₁⟩, hstays₁⟩ := h
    have htask := hstays₁ task (List.mem_cons_self ..)
    obtain ⟨hs₂, hg₂, -⟩ := hs₁.grow_step htask.ready
    refine ⟨⟨hs₂, hg₁.trans hg₂, hstep task s₁ hs₁ hg₁ htask hP₁⟩, fun next hnext => ?_⟩
    rcases List.mem_append.mp hnext with hnext | hnext
    · exact htask.step hs₁ (hpart.frame hg₁.frame) next hnext
    · exact (hstays₁ next (List.mem_cons_of_mem _ hnext)).grows hg₂

/-- Work within a part of the schema leaves the ranks in keys elsewhere alone. -/
theorem Sound.rank_elsewhere (hs : s.Sound) (hpart : s.Fences keys exports)
    (hstays : ∀ task ∈ tasks, task.Stays keys exports s) (hw : WorksOff Grow.step tasks s s')
    (hown : s.owner? c = some t) (hout : ¬ keys t) : s'.rank? c = s.rank? c := by
  refine hs.invariant_elsewhere (P := fun s₁ => s₁.rank? c = s.rank? c) hpart hstays hw ?_ rfl
  intro task s₁ hs₁ hg htask hrank
  have hown₁ := (hg.owner? (contains_of_owner? hown)).trans hown
  exact (hs₁.rank?_grow_step htask hown₁ hout).trans hrank

/-- Work within a part of the schema puts no relationship out of order that tables elsewhere
export. -/
theorem Sound.inOrder_elsewhere (hs : s.Sound) (hpart : s.Fences keys exports)
    (hstays : ∀ task ∈ tasks, task.Stays keys exports s) (hw : WorksOff Grow.step tasks s s')
    (hl : s.isLive r = true) (hp : s.parent? r = some p) (hout : ¬ exports p) (h : s.InOrder r) :
    s'.InOrder r :=
  hs.invariant_elsewhere (P := fun s₁ => s₁.InOrder r) hpart hstays hw
    (fun _ _ hs₁ hg htask => hs₁.inOrder_grow_step (hpart.frame hg.frame) htask
      ((hg.frame.isLive r).trans hl) ((hg.frame.parent? r).trans hp) hout) h

end Schema

end KeyedSchema
