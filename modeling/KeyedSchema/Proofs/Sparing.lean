import KeyedSchema.Proofs.Attaching

/-!
# Sparing — what catching up leaves alone

When a table has fallen behind its key, catching up maps what its relationships miss, and the
columns that are mapped may carry the key on into further tables. No column leaves its table or its
key on the way, and none that was in a key before comes to be mapped where the table is not the
parent: what is mapped there is a column that has just joined the key.

- `Lasts`           : whether columns stay in their tables and keys;
- `Spares`          : how far a run has come that leaves the old key columns alone;
- `Lagging.spares`  : what a table that is behind leaves alone as it catches up.
-/

namespace KeyedSchema

namespace Schema

variable {s s' s'' s₀ : Schema} {t : TableId} {r : RelationshipId}
  {debt : RelationshipId → ColumnId → Prop}

/-! ## Columns that were in keys before -/

section

variable {task : Grow} {tasks : List Grow} {old : ColumnId → Prop}

/-- How far a run has come that leaves the old key columns alone in `r`: none of them is mapped
there that was not, and no task is about to map one. -/
structure Spares (r : RelationshipId) (old : ColumnId → Prop) (s₀ : Schema) (tasks : List Grow)
    (s : Schema) : Prop where
  sound : s.Sound
  ready : ∀ task ∈ tasks, task.Ready s
  isKey : ∀ x, old x → s.isKey x = true
  mapping : ∀ depth x, .map depth r x ∈ tasks → ¬ old x
  joining : ∀ depth x, .join depth x ∈ tasks → ¬ old x
  mapped : ∀ m ∈ s.mappingsOf r, old m.pk → m ∈ s₀.mappingsOf r

theorem Spares.step (h : Spares r old s₀ (task :: tasks) s) :
    Spares r old s₀ ((task.step s).1 ++ tasks) (task.step s).2 := by
  have hready := h.ready task (List.mem_cons_self ..)
  obtain ⟨hs', hg, hnext⟩ := h.sound.grow_step hready
  refine ⟨hs', fun next hin => ?_, fun x hold => hg.isKey (h.isKey x hold), fun depth x hin => ?_,
    fun depth x hin => ?_, fun m hm hold => ?_⟩
  · rcases List.mem_append.mp hin with hin | hin
    · exact hnext next hin
    · exact hg.ready (h.ready next (List.mem_cons_of_mem _ hin))
  · rcases List.mem_append.mp hin with hin | hin
    · obtain rfl := eq_join_of_map_mem hin
      exact h.joining depth x (List.mem_cons_self ..)
    · exact h.mapping depth x (List.mem_cons_of_mem _ hin)
  · rcases List.mem_append.mp hin with hin | hin
    · intro hold
      exact absurd ((not_isKey_of_join_mem hin).symm.trans (h.isKey x hold)) Bool.noConfusion
    · exact h.joining depth x (List.mem_cons_of_mem _ hin)
  · rcases h.sound.mem_mappingsOf_grow hready hm with hm | ⟨depth, rfl⟩
    · exact h.mapped m hm hold
    · exact absurd hold (h.mapping depth m.pk (List.mem_cons_self ..))

end

/-! ## Catching up -/

/-- Whether columns stay in their tables, and in their keys. -/
structure Lasts (s s' : Schema) : Prop where
  owner? : ∀ c t, s.owner? c = some t → s'.owner? c = some t
  isKey : ∀ c, s.isKey c = true → s'.isKey c = true

theorem Lasts.trans (h : Lasts s s') (h' : Lasts s' s'') : Lasts s s'' :=
  ⟨fun c t hc => h'.owner? c t (h.owner? c t hc), fun c hc => h'.isKey c (h.isKey c hc)⟩

theorem Grows.lasts (h : Grows s s') : Lasts s s' :=
  ⟨fun _ _ hc => (h.owner? (contains_of_owner? hc)).trans hc, fun _ hc => h.isKey hc⟩

theorem lasts_of_columns (h : s'.columns = s.columns) : Lasts s s' :=
  ⟨fun c t hc => by rwa [Schema.owner?, h], fun c hc => (isKey_of_columns h c).trans hc⟩

theorem Sound.lasts_catchUpStart (hs : s.Sound) (t : TableId) (name : String) :
    Lasts s (s.catchUpStart t name) := by
  have hsettled := sameStock_settled t s
  have hsignal := (SameObjects.signal (.compoundEditStarted s!"update keys exported by {name}")
    (s.settled t)).sameStock
  have hs₁ := (hs.of_sameShape hsettled.shape).of_sameShape hsignal.shape
  refine (lasts_of_columns (hsignal.columns.trans hsettled.columns)).trans
    ⟨fun c _ hc => ?_, fun c hc => ?_⟩
  · exact ((reranks_normalizeKey t none _).owner? c).trans hc
  · exact (hs₁.isKey_normalizeKey t none c).trans hc

section

variable {key : List ColumnId} {rs : List RelationshipId} {r₀ : RelationshipId}
  {old : ColumnId → Prop}

/-- A relationship that is brought in line maps what it misses of the key, and no more happens. -/
theorem Catching.maps (h : Catching debt t key (r :: rs) s) (hr : Reconciles key r s s') :
    ∃ s₁, WorksOff Grow.step (key.map (.map s.tables.size r)) s s₁ ∧
      (∀ task ∈ key.map (Grow.map s.tables.size r), task.Ready s) ∧
      s' = s₁.syncMappingOrder r := by
  obtain ⟨s₀, s₁, hw₀, -, hw, rfl⟩ := hr
  obtain rfl := eq_of_sweep h.no_strays hw₀
  refine ⟨s₁, hw, fun task ht => ?_, rfl⟩
  obtain ⟨hl, hp⟩ := h.exported r (List.mem_cons_self ..)
  obtain ⟨-, ch, -, hch, -⟩ := isLive_iff.mp hl
  obtain ⟨x, hx, rfl⟩ := List.mem_map.mp ht
  exact ⟨t, ch, hp, hch, ((h.key_iff x).mp hx).1⟩

theorem Catching.lasts (h : Catching debt t key rs s) (hc : Chain (Reconciles key) rs s s') :
    Lasts s s' := by
  induction hc with
  | nil s => exact ⟨fun _ _ hc => hc, fun _ hc => hc⟩
  | @cons r rs s s₁ s' h₁ _ ih =>
      obtain ⟨s₂, hw, hready, rfl⟩ := h.maps h₁
      have hg := (h.sound.grow hready hw).2.trans (grows_syncMappingOrder r s₂)
      exact hg.lasts.trans (ih (h.reconciles h₁))

/-- Meanwhile no relationship that has had its turn, or gets none, maps a column that was in a key
before. -/
theorem Catching.spares (h : Catching debt t key rs s) (hr₀ : r₀ ∉ rs)
    (hold : ∀ x, old x → s.isKey x = true) (hc : Chain (Reconciles key) rs s s') :
    ∀ m ∈ s'.mappingsOf r₀, old m.pk → m ∈ s.mappingsOf r₀ := by
  induction hc with
  | nil s => exact fun _ hm _ => hm
  | @cons r rs s s₁ s' h₁ _ ih =>
      obtain ⟨s₂, hw, hready, rfl⟩ := h.maps h₁
      have hg := (h.sound.grow hready hw).2.trans (grows_syncMappingOrder r s₂)
      have hstart : Spares r₀ old s (key.map (.map s.tables.size r)) s := by
        refine ⟨h.sound, hready, hold, fun depth x hin => ?_, fun depth x hin => ?_,
          fun _ hm _ => hm⟩
        · obtain ⟨y, -, heq⟩ := List.mem_map.mp hin
          obtain ⟨-, rfl, -⟩ := Grow.map.inj heq
          exact absurd (List.mem_cons_self ..) hr₀
        · obtain ⟨y, -, heq⟩ := List.mem_map.mp hin
          exact Grow.noConfusion heq
      have hrun := hw.invariant_all (J := Spares r₀ old s) (fun _ _ _ h => h.step) hstart
      intro m hm hmold
      have hm₁ := ih (h.reconciles h₁) (fun hin => hr₀ (List.mem_cons_of_mem _ hin))
        (fun x hx => hg.isKey (hold x hx)) m hm hmold
      exact hrun.mapped m (((reranks_syncMappingOrder r s₂).mappingsOf r₀).subset hm₁) hmold

end

theorem Lagging.lasts (h : Lagging debt t s) (hx : Exits t s s') : Lasts s s' := by
  cases hx with
  | absent _ => exact lasts_of_columns (SameObjects.forget t s).columns
  | plain _ _ => exact lasts_of_columns (sameStock_settled t s).columns
  | @caughtUp tbl s₁ _ _ _ hchain =>
      have hstart := h.sound.lasts_catchUpStart t tbl.name
      have hend := lasts_of_columns (SameObjects.signal .compoundEditEnded s₁).columns
      exact (hstart.trans ((h.catching tbl.name).lasts hchain)).trans hend

/-- A table that catches up maps no column that was in a key before in what others export. -/
theorem Lagging.spares (h : Lagging debt t s) (hx : Exits t s s') (hp : s.parent? r ≠ some t) :
    ∀ m ∈ s'.mappingsOf r, s.isKey m.pk = true → m ∈ s.mappingsOf r := by
  cases hx with
  | absent _ => exact fun m hm _ => (SameObjects.forget t s).sameShape.mem_mappingsOf.mp hm
  | plain _ _ => exact fun m hm _ => (sameShape_settled t s).mem_mappingsOf.mp hm
  | @caughtUp tbl s₁ _ _ _ hchain =>
      have hshape := sameShape_catchUpStart t tbl.name s
      have hcatching := h.catching tbl.name
      have hout : r ∉ (s.catchUpStart t tbl.name).liveExportsOf t := fun hin =>
        hp ((hshape.parent? r).symm.trans (hcatching.exported r hin).2)
      intro m hm hk
      have hm₁ := (SameObjects.signal .compoundEditEnded s₁).sameShape.mem_mappingsOf.mp hm
      exact hshape.mem_mappingsOf.mp (hcatching.spares hout
        (h.sound.lasts_catchUpStart t tbl.name).isKey hchain m hm₁ hk)

end Schema

end KeyedSchema
