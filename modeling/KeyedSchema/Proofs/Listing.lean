import KeyedSchema.Proofs.Introducing

/-!
# Listing — mappings that a script lists

A step that introduces a relationship may list the pairs of columns that it maps. They are mapped
one by one once the relationship is attached, and none of them brings another one there: what joins
the key of the child of an identifying relationship never comes to join that of its parent. What is
mapped besides them has been mapped before, when the child was caught up with.

- `Writes`     : what a list of pairs that have been mapped comes to;
- `Lists`      : which pairs a description lists;
- `MapsListed` : what comes of them.
-/

namespace KeyedSchema

namespace Schema

open Relation

variable {s s' s'' : Schema} {p ch : TableId} {r : RelationshipId} {pk fk : ColumnId}

/-! ## Mapping by hand -/

/-- Whether the mappings of a list, and no others, have come to a relationship that `p` exports. No
column has joined the key of `p`. -/
structure Writes (r : RelationshipId) (p : TableId) (ms : List Mapping) (s s' : Schema) : Prop where
  frame : SameFrame s s'
  lasts : Lasts s s'
  key : ∀ x, s'.owner? x = some p → s'.isKey x = true → s.owner? x = some p ∧ s.isKey x = true
  mem_mappingsOf : ∀ m, m ∈ s'.mappingsOf r ↔ m ∈ s.mappingsOf r ∨ m ∈ ms

theorem Writes.trans {ms ms' : List Mapping} (h : Writes r p ms s s') (h' : Writes r p ms' s' s'') :
    Writes r p (ms ++ ms') s s'' where
  frame := h.frame.trans h'.frame
  lasts := h.lasts.trans h'.lasts
  key x ho hk := by
    obtain ⟨ho', hk'⟩ := h'.key x ho hk
    exact h.key x ho' hk'
  mem_mappingsOf m := by rw [h'.mem_mappingsOf, h.mem_mappingsOf, List.mem_append, or_assoc]

theorem SameObjects.writes (h : SameObjects s s') (r : RelationshipId) (p : TableId) :
    Writes r p [] s s' where
  frame := h.sameFrame
  lasts := lasts_of_columns h.columns
  key x ho hk :=
    ⟨(h.sameShape.owner? x).symm.trans ho, (isKey_of_columns h.columns x).symm.trans hk⟩
  mem_mappingsOf m := by simp [h.sameShape.mem_mappingsOf]

theorem writes_syncMappingOrder (r : RelationshipId) (p : TableId) (s : Schema) :
    Writes r p [] s (s.syncMappingOrder r) := by
  have hre := reranks_syncMappingOrder r s
  refine ⟨hre.sameFrame, (grows_syncMappingOrder r s).lasts, fun x ho hk => ?_, fun m => ?_⟩
  · exact ⟨(hre.owner? x).symm.trans ho, (isKey_syncMappingOrder r s x).symm.trans hk⟩
  · simp [(hre.mappingsOf r).mem_iff]

/-- Whether the key of a table may grow when a column joins the key of `ch` because of `r`. -/
def FedBy (s : Schema) (r : RelationshipId) (ch t : TableId) : Prop :=
  s.isIdentifying r = true ∧ ReflTransGen s.Feeds ch t

theorem fences_fedBy (h : SameFrame s s') (r : RelationshipId) (ch : TableId) :
    s'.Fences (s.FedBy r ch) (s.FedBy r ch) :=
  ⟨fun _ ht => ht, fun _ _ ht hfeeds => ⟨ht.1, ht.2.tail (h.feeds ▸ hfeeds)⟩⟩

theorem stays_joining {m : Mapping} (hfk : s.owner? fk = some ch) {task : Grow}
    (h : task ∈ s.joining r fk) :
    task.Stays (s.FedBy r ch) (s.FedBy r ch) (s.appendMapping r m) := by
  unfold joining at h
  split at h
  · rename_i hjoin
    obtain rfl := List.mem_singleton.mp h
    exact ⟨ch, (owner?_appendMapping ..).trans hfk, (Bool.and_eq_true_iff.mp hjoin).1, .refl⟩
  · exact absurd h List.not_mem_nil

/-- No way leads back from the child of a relationship to its parent. -/
theorem Acyclic.not_fedBy (ha : s.Acyclic) (hl : s.isLive r = true) (hp : s.parent? r = some p)
    (hch : s.child? r = some ch) : ¬ s.FedBy r ch p :=
  fun h => ha p (.head' ⟨r, hl, h.1, hp, hch⟩ h.2)

/-- A mapping by hand in a live relationship brings no other one there: the child column may have
to join the child's key, but that feeds into no key of the parent. -/
theorem Maps.writes (h : Maps r pk fk s s') (hs : s.Sound) (ha : s.Acyclic)
    (hl : s.isLive r = true) (hp : s.parent? r = some p) : Writes r p [⟨pk, fk⟩] s s' := by
  obtain ⟨p', ch, hp', hch, hpk, hfk⟩ := h.ends
  obtain rfl := Option.some.inj (hp.symm.trans hp')
  obtain ⟨s₁, hw, hs'⟩ := h.worksOff
  have happ := hs.appendMapping (m := ⟨pk, fk⟩) hp hch hpk hfk h.unmapped
  have hf := sameFrame_appendMapping r ⟨pk, fk⟩ s
  have hcolumns := columns_appendMapping r ⟨pk, fk⟩ s
  have hmapped : ∀ m, m ∈ (s.appendMapping r ⟨pk, fk⟩).mappingsOf r ↔
      m ∈ s.mappingsOf r ∨ m ∈ [(⟨pk, fk⟩ : Mapping)] := by
    intro m
    rw [mappingsOf_appendMapping (contains_of_parent? hp), if_pos rfl, List.mem_append]
  -- what the promotion of the child column gets to
  have hpart := fences_fedBy hf r ch
  have hstays := fun task (hin : task ∈ s.joining r fk) => stays_joining (m := ⟨pk, fk⟩) hfk hin
  have hout := ha.not_fedBy hl hp hch
  have hg := (happ.grow (fun task hin => (hstays task hin).ready) hw).2
  have hrun : Writes r p [⟨pk, fk⟩] s s₁ := by
    refine ⟨hf.trans hg.frame, (lasts_of_columns hcolumns).trans hg.lasts, fun x ho hk => ?_,
      fun m => ⟨fun hm => ?_, fun hm => ?_⟩⟩
    · obtain ⟨ho₀, hk₀⟩ := happ.key_elsewhere hpart hstays hw hout ho hk
      rw [owner?_appendMapping] at ho₀
      rw [isKey_of_columns hcolumns] at hk₀
      exact ⟨ho₀, hk₀⟩
    · exact (hmapped m).mp
        (happ.mappingsOf_elsewhere hpart hstays hw ((hf.parent? r).trans hp) hout hm)
    · exact hg.mappingsOf r ((hmapped m).mpr hm)
  rcases hs' with rfl | ⟨rfl, -⟩
  · simpa using hrun.trans (writes_syncMappingOrder r p s₁)
  · exact hrun

theorem AmidEvents.writes (h : AmidEvents (Maps r pk fk) s s') (hs : s.Sound) (ha : s.Acyclic)
    (hl : s.isLive r = true) (hp : s.parent? r = some p) : Writes r p [⟨pk, fk⟩] s s' := by
  obtain ⟨s₁, s₂, h₁, hmaps, h₂⟩ := h
  have hf := h₁.sameFrame
  have hwrites := hmaps.writes (hs.of_sameObjects h₁) (ha.inherits hf.inherits)
    ((hf.isLive r).trans hl) ((hf.parent? r).trans hp)
  simpa using ((h₁.writes r p).trans hwrites).trans (h₂.writes r p)

end Schema

namespace StepAction

open Schema

variable {s : Schema} {p ch : TableId} {r : RelationshipId} {ms : List Mapping}

/-- Mapping the pairs of a list one by one goes through if they are pairs of unmapped key columns
of the parent and columns of the child. -/
theorem forM_addMapping_ends (code : String) (hs : s.Sound) (ha : s.Acyclic)
    (hl : s.isLive r = true) (hp : s.parent? r = some p) (hch : s.child? r = some ch)
    (hpairs : ∀ m ∈ ms, s.owner? m.pk = some p ∧ s.isKey m.pk = true ∧ s.owner? m.fk = some ch)
    (hnew : ∀ m ∈ ms, m.pk ∉ (s.mappingsOf r).map Mapping.pk) (hnd : (ms.map Mapping.pk).Nodup) :
    ((ms.map fun m : Mapping => (m.pk, m.fk)).forM fun (pk, fk) =>
      ofEdit code (Edit.addMapping r pk fk)).Ends
      (fun _ s' => Writes r p ms s s') (fun _ _ => False) s := by
  induction ms generalizing s with
  | nil => exact (SameObjects.refl s).writes r p
  | cons m ms ih =>
      obtain ⟨hpk, hkey, hfk⟩ := hpairs m (List.mem_cons_self ..)
      obtain ⟨hfirst, hrest⟩ := List.nodup_cons.mp hnd
      rw [List.map_cons, ends_forM_cons, ends_ofEdit]
      refine (Edit.addMapping_ends hs hp hch hpk hkey hfk (hnew m (List.mem_cons_self ..))).imp
        fun _ s₁ hmaps => ?_
      have hwrites := hmaps.writes hs ha hl hp
      have hs₁ := hmaps.sound hs fun _ _ _ hs₁ h => h.sound hs₁
      refine (ih hs₁ (ha.inherits hwrites.frame.inherits) ((hwrites.frame.isLive r).trans hl)
        ((hwrites.frame.parent? r).trans hp) ((hwrites.frame.child? r).trans hch)
        (fun m' hm' => ?_) (fun m' hm' => ?_) hrest).imp fun _ _ h => hwrites.trans h
      · obtain ⟨hpk', hkey', hfk'⟩ := hpairs m' (List.mem_cons_of_mem _ hm')
        exact ⟨hwrites.lasts.owner? _ _ hpk', hwrites.lasts.isKey _ hkey',
          hwrites.lasts.owner? _ _ hfk'⟩
      · intro hin
        obtain ⟨m'', hm'', heq⟩ := List.mem_map.mp hin
        rcases (hwrites.mem_mappingsOf m'').mp hm'' with hold | hnew'
        · exact hnew m' (List.mem_cons_of_mem _ hm') (List.mem_map.mpr ⟨m'', hold, heq⟩)
        · obtain rfl := List.mem_singleton.mp hnew'
          exact hfirst (List.mem_map.mpr ⟨m', hm', heq.symm⟩)

/-- Mapping a pair by hand is refused if its key column is mapped already. -/
theorem addMapping_duplicate (code : String) {m : Mapping} (hp : s.parent? r = some p)
    (hch : s.child? r = some ch) (hpk : s.owner? m.pk = some p) (hkey : s.isKey m.pk = true)
    (hfk : s.owner? m.fk = some ch) (hin : m.pk ∈ (s.mappingsOf r).map Mapping.pk) :
    (((m :: ms).map fun m : Mapping => (m.pk, m.fk)).forM fun (pk, fk) =>
      ofEdit code (Edit.addMapping r pk fk)).Ends (fun _ _ => False)
      (fun e _ => e = StepFault.refused code (.duplicateMapping r m.pk)) s := by
  rw [List.map_cons, ends_forM_cons, ends_ofEdit, Edit.ends_addMapping hp hch hpk hkey hfk,
    if_pos hin]

end StepAction

/-! ## Listed mappings -/

namespace Schema

open Relation

variable {config : Config} {s s₁ s' : Schema} {p ch : TableId} {r : RelationshipId}
  {rel : RelationshipSpec} {ms : List Mapping}

/-- Whether the pairs that a description of a relationship lists are those of `ms`: the tables that
it names are `p` and `ch`, and it lists different key columns of `p` with columns of `ch`. -/
structure Lists (rel : RelationshipSpec) (p ch : TableId) (ms : List Mapping) (s : Schema) :
    Prop where
  parent : s.tableNamed? rel.parent = some p
  child : s.tableNamed? rel.child = some ch
  named : List.Forall₂ (fun names m => s.columnNamed? p names.1 = some m.pk ∧
    s.columnNamed? ch names.2 = some m.fk) rel.mappings ms
  isKey : ∀ m ∈ ms, s.isKey m.pk = true
  nodup : (ms.map Mapping.pk).Nodup

theorem contains_of_tableNamed? {name : String} (h : s.tableNamed? name = some p) :
    s.tables.contains p = true := by
  unfold tableNamed? Roster.findKey? at h
  obtain ⟨entry, hfind, rfl⟩ := Option.map_eq_some_iff.mp h
  rw [← Roster.mem_keys_iff]
  exact List.mem_map.mpr ⟨entry, List.mem_of_find?_eq_some hfind, rfl⟩

theorem Sound.owner?_of_columnNamed? (hs : s.Sound) {c : ColumnId} {name : String}
    (h : s.columnNamed? p name = some c) : s.owner? c = some p :=
  (hs.listed p c).mp (List.mem_of_find?_eq_some h)

theorem Lists.pairs (h : Lists rel p ch ms s) (hs : s.Sound) :
    ∀ m ∈ ms, s.owner? m.pk = some p ∧ s.isKey m.pk = true ∧ s.owner? m.fk = some ch := by
  have howned : List.Forall₂
      (fun m _ => (s.owner? m.pk = some p ∧ s.owner? m.fk = some ch) ∧ True) ms rel.mappings :=
    h.named.flip.imp fun m _ hnamed => ⟨⟨hs.owner?_of_columnNamed? hnamed.1,
      hs.owner?_of_columnNamed? hnamed.2⟩, trivial⟩
  intro m hm
  obtain ⟨hpk, hfk⟩ := ((List.forall₂_and_left ms rel.mappings).mp howned).1 m hm
  exact ⟨hpk, h.isKey m hm, hfk⟩

/-- What comes of the pairs that are listed for a relationship: it is live and maps them all.
Besides them it maps the columns that have joined the key of its parent on the way, which are none
if there is nothing to catch up with in the child or its key does not feed into the parent. -/
structure MapsListed (config : Config) (r : RelationshipId) (p ch : TableId) (ms : List Mapping)
    (s s' : Schema) : Prop where
  isLive : s'.isLive r = true
  parent : s'.parent? r = some p
  child : s'.child? r = some ch
  listed : ∀ m ∈ ms, m ∈ s'.mappingsOf r
  generated : ∀ x, (∃ m ∈ s'.mappingsOf r, m.pk = x ∧ m ∉ ms) ↔
    s'.owner? x = some p ∧ s'.isKey x = true ∧ s.isKey x = false
  exactly : config.magicByDefault = false ∨ s.needsReconcile ch = false ∨
    ¬ ReflTransGen s.Feeds ch p → ∀ m, m ∈ s'.mappingsOf r ↔ m ∈ ms

theorem Introduces.mapsListed (h : Introduces config r p ch s s₁)
    (hown : ¬ (p = ch ∧ config.magicByDefault = true)) (hs₁ : s₁.Sound) (hw : Writes r p ms s₁ s')
    (hkey : ∀ m ∈ ms, s.isKey m.pk = true) : MapsListed config r p ch ms s s' where
  isLive := (hw.frame.isLive r).trans h.isLive
  parent := (hw.frame.parent? r).trans h.parent
  child := (hw.frame.child? r).trans h.child
  listed m hm := (hw.mem_mappingsOf m).mpr (.inr hm)
  generated x := by
    constructor
    · rintro ⟨m, hm, rfl, hnot⟩
      have hm₁ := ((hw.mem_mappingsOf m).mp hm).resolve_right hnot
      refine ⟨hw.lasts.owner? _ _ (hs₁.pk_owner hm₁ h.parent), ?_, h.adds.fresh hown m hm₁⟩
      exact hw.lasts.isKey _ (h.adds.straight m hm₁)
    · rintro ⟨ho, hk, hnew⟩
      obtain ⟨ho₁, hk₁⟩ := hw.key x ho hk
      rcases h.adds.mapped x ho₁ hk₁ with hmapped | ⟨-, hold⟩
      · obtain ⟨m, hm, rfl⟩ := List.mem_map.mp hmapped
        refine ⟨m, (hw.mem_mappingsOf m).mpr (.inl hm), rfl, fun hin => ?_⟩
        exact absurd (hnew.symm.trans (hkey m hin)) Bool.false_ne_true
      · exact absurd (hnew.symm.trans hold) Bool.false_ne_true
  exactly hquiet m := by
    rw [hw.mem_mappingsOf, h.unmapped hown hquiet]
    simp

end Schema

namespace StepAction

open Schema

variable {config : Config} {s s₁ : Schema} {p ch : TableId} {r : RelationshipId}
  {rel : RelationshipSpec} {m : Mapping} {ms : List Mapping}

/-- The names of all pairs are found. -/
theorem pairs_ends (h : Lists rel p ch ms s) :
    (rel.mappings.mapM fun (pk, fk) => do
      return (← column rel.parent pk, ← column rel.child fk)).Ends
      (fun pairs s' => pairs = ms.map (fun m : Mapping => (m.pk, m.fk)) ∧ s' = s)
      (fun _ _ => False) s := by
  have hall : List.Forall₂ (fun names (pair : ColumnId × ColumnId) =>
      s.columnNamed? p names.1 = some pair.1 ∧ s.columnNamed? ch names.2 = some pair.2)
      rel.mappings (ms.map fun m => (m.pk, m.fk)) :=
    List.forall₂_map_right_iff.mpr h.named
  refine ends_mapM_of hall ?_
  rintro ⟨pk, fk⟩ ⟨x, y⟩ ⟨hpk, hfk⟩
  simp only [ends_bind, ends_column_of h.parent hpk, ends_column_of h.child hfk, ends_pure,
    and_self]

/-- The listed pairs are mapped, unless the parent is the child that is caught up with. Then the first
one is refused, since its key column is mapped already. -/
theorem forM_listed_ends (code : String) (hs : s.Sound) (hlists : Lists rel p ch (m :: ms) s)
    (hintroduces : Introduces config r p ch s s₁) (h₁ : Scripted config s₁) :
    (((m :: ms).map fun m : Mapping => (m.pk, m.fk)).forM fun (pk, fk) =>
      ofEdit code (Edit.addMapping r pk fk)).Ends
      (fun _ s' => ¬ (p = ch ∧ config.magicByDefault = true) ∧
        MapsListed config r p ch (m :: ms) s s')
      (fun e _ => (p = ch ∧ config.magicByDefault = true) ∧
        e = StepFault.refused code (.duplicateMapping r m.pk)) s₁ := by
  -- the listed columns are where they were
  have hlasts := hintroduces.adds.lasts
  have hpairs : ∀ m' ∈ m :: ms, s₁.owner? m'.pk = some p ∧ s₁.isKey m'.pk = true ∧
      s₁.owner? m'.fk = some ch := by
    intro m' hm'
    obtain ⟨hpk, hkey, hfk⟩ := hlists.pairs hs m' hm'
    exact ⟨hlasts.owner? _ _ hpk, hlasts.isKey _ hkey, hlasts.owner? _ _ hfk⟩
  by_cases hown : p = ch ∧ config.magicByDefault = true
  · obtain ⟨hpk, hkey, hfk⟩ := hpairs m (List.mem_cons_self ..)
    have hmapped := (hintroduces.adds.mapped m.pk hpk hkey).resolve_right fun hnot => hnot.1 hown
    exact (addMapping_duplicate code hintroduces.parent hintroduces.child hpk hkey hfk hmapped).mono
      (fun _ _ hnone => hnone.elim) fun _ _ he => ⟨hown, he⟩
  · have hnew : ∀ m' ∈ m :: ms, m'.pk ∉ (s₁.mappingsOf r).map Mapping.pk := by
      intro m' hm' hin
      obtain ⟨m'', hm'', heq⟩ := List.mem_map.mp hin
      have hfresh := hintroduces.adds.fresh hown m'' hm''
      rw [heq, hlists.isKey m' hm'] at hfresh
      exact Bool.noConfusion hfresh
    have hwritten := forM_addMapping_ends code h₁.sound h₁.acyclic hintroduces.isLive
      hintroduces.parent hintroduces.child hpairs hnew hlists.nodup
    refine hwritten.mono (fun _ s' hw => ⟨hown, ?_⟩) fun _ _ hnone => hnone.elim
    exact hintroduces.mapsListed hown h₁.sound hw hlists.isKey

/-- A relationship with listed mappings is introduced, unless it would close a circle, and then its
pairs are mapped one by one. -/
theorem createRelationship_ends (h : Scripted config s) (hlists : Lists rel p ch (m :: ms) s)
    (code : String) : (createRelationship rel code).Ends
      (fun _ s' => ¬ (p = ch ∧ config.magicByDefault = true) ∧
        MapsListed config ⟨s.lastRelationship + 1⟩ p ch (m :: ms) s s')
      (fun e _ => (∃ r, e = .refused code (.identifyingCycle r)) ∨
        (p = ch ∧ config.magicByDefault = true) ∧
          e = .refused code (.duplicateMapping ⟨s.lastRelationship + 1⟩ m.pk)) s := by
  unfold createRelationship
  rw [ends_bind, ends_table_of hlists.parent, ends_bind, ends_table_of hlists.child, ends_bind]
  refine (pairs_ends hlists).mono ?_ fun _ _ hnone => hnone.elim
  rintro _ s' ⟨rfl, hs'⟩
  rw [hs']
  have hauto : (rel.autoMap && ((m :: ms).map fun m : Mapping => (m.pk, m.fk)).isEmpty) = false :=
    Bool.and_false _
  rw [ends_bind, ends_get, hauto, ends_bind, ends_ofEdit]
  have hp := contains_of_tableNamed? hlists.parent
  have hch := contains_of_tableNamed? hlists.child
  refine (Edit.introduce_ends h hp hch rfl rfl).total fun r s₁ hattach => ?_
  rw [ends_bind, ends_ofEdit]
  refine hattach.mono ?_ fun e _ he => .inl ⟨r, congrArg _ he⟩
  rintro _ s₁ ⟨rfl, h₁, hintroduces⟩
  exact (forM_listed_ends code h.sound hlists hintroduces h₁).mono (fun _ _ hdone => hdone)
    fun _ _ he => .inr he

end StepAction

namespace Schema

variable {config : Config} {steps : List Step} {s : Schema} {rel : RelationshipSpec}
  {p ch : TableId} {m : Mapping} {ms : List Mapping}

/-- A step after a script that lists mappings for a new relationship, and is not refused because of
a circle, maps them and nothing else but what `MapsListed` says — unless it connects a table with
itself and the magic is on. Then the table maps its own key when it is caught up with, and the first
pair is refused as a duplicate. -/
theorem replay_listed (hok : replay config steps = .ok s) (hlists : Lists rel p ch (m :: ms) s)
    (hcycle : ∀ r, (Step.createRelationship rel).replay s ≠
      .error (.refused "create_relationship" (.identifyingCycle r))) :
    (p = ch ∧ config.magicByDefault = true → (Step.createRelationship rel).replay s =
      .error (.refused "create_relationship" (.duplicateMapping ⟨s.lastRelationship + 1⟩ m.pk))) ∧
    (¬ (p = ch ∧ config.magicByDefault = true) →
      ∃ s', (Step.createRelationship rel).replay s = .ok s' ∧
        MapsListed config ⟨s.lastRelationship + 1⟩ p ch (m :: ms) s s') := by
  have hends :=
    StepAction.createRelationship_ends (scripted_of_replay hok) hlists "create_relationship"
  change (StepAction.ofStep (Step.createRelationship rel)).Ends _ _ s at hends
  unfold StepAction.Ends at hends
  unfold Step.replay at hcycle ⊢
  split at hends
  · rename_i s' hrun
    rw [hrun]
    obtain ⟨hown, hlisted⟩ := hends
    exact ⟨fun h => absurd h hown, fun _ => ⟨s', rfl, hlisted⟩⟩
  · rename_i e s' hrun
    rw [hrun] at hcycle ⊢
    rcases hends with ⟨r, rfl⟩ | ⟨hown, rfl⟩
    · exact absurd rfl (hcycle r)
    · exact ⟨fun _ => rfl, fun h => absurd hown h⟩

/-- A table with a key and a column that is to refer to it. -/
def loopSteps : List Step :=
  [.createTable "a" [{ name := "id", rank := some 0 }, { name := "parent_id" }]]

def loopSchema : Schema := (replay {} loopSteps).toOption.getD (ofConfig {})

def loopRelationship : RelationshipSpec :=
  { parent := "a", child := "a", mappings := [("id", "parent_id")] }

/-- Two tables with keys, connected by an identifying relationship that does not map the key of `a`,
and a column of `a` that is to refer back to `b`. -/
def backSteps : List Step :=
  [.createTable "a" [{ name := "id", rank := some 0 }, { name := "b_code" }],
    .createTable "b" [{ name := "code", rank := some 0 }],
    .createRelationship { parent := "a", child := "b", identifying := true, autoMap := false }]

def backSchema : Schema := (replay {} backSteps).toOption.getD (ofConfig {})

def backRelationship : RelationshipSpec :=
  { parent := "b", child := "a", mappings := [("code", "b_code")] }

/-- Both a table that is connected with itself and a child whose key feeds into the parent are
caught up with: the first step is refused, and the second one brings a mapping that is not
listed. -/
theorem replay_listed_caughtUp :
    (Step.createRelationship loopRelationship).replay loopSchema =
      .error (.refused "create_relationship" (.duplicateMapping ⟨1⟩ ⟨1⟩)) ∧
    ∃ s', (Step.createRelationship backRelationship).replay backSchema = .ok s' ∧
      MapsListed {} ⟨2⟩ ⟨2⟩ ⟨1⟩ [⟨⟨3⟩, ⟨2⟩⟩] backSchema s' ∧
      s'.mappingsOf ⟨2⟩ = [⟨⟨3⟩, ⟨2⟩⟩, ⟨⟨4⟩, ⟨1⟩⟩] := by
  constructor
  · have hok : replay {} loopSteps = .ok loopSchema := by decide +kernel
    have hlists : Lists loopRelationship ⟨1⟩ ⟨1⟩ [⟨⟨1⟩, ⟨2⟩⟩] loopSchema :=
      ⟨by decide +kernel, by decide +kernel, .cons (by decide +kernel) .nil, by decide +kernel,
        List.nodup_singleton _⟩
    have hcause : ((Step.createRelationship loopRelationship).replay loopSchema).mapError
        (fun | .refused _ (.identifyingCycle _) => true | _ => false) = .error false := by
      decide +kernel
    refine (replay_listed hok hlists fun r hfault => ?_).1 (by decide)
    rw [hfault] at hcause
    cases hcause
  · have hok : replay {} backSteps = .ok backSchema := by decide +kernel
    have hlists : Lists backRelationship ⟨2⟩ ⟨1⟩ [⟨⟨3⟩, ⟨2⟩⟩] backSchema :=
      ⟨by decide +kernel, by decide +kernel, .cons (by decide +kernel) .nil, by decide +kernel,
        List.nodup_singleton _⟩
    have hmappings : ((Step.createRelationship backRelationship).replay backSchema).map
        (mappingsOf · ⟨2⟩) = .ok [⟨⟨3⟩, ⟨2⟩⟩, ⟨⟨4⟩, ⟨1⟩⟩] := by
      decide +kernel
    have hcycle : ∀ r, (Step.createRelationship backRelationship).replay backSchema ≠
        .error (.refused "create_relationship" (.identifyingCycle r)) := by
      intro r hfault
      rw [hfault] at hmappings
      cases hmappings
    obtain ⟨s', hs', hlisted⟩ := (replay_listed hok hlists hcycle).2 (by decide)
    rw [hs'] at hmappings
    exact ⟨s', hs', hlisted, Except.ok.inj hmappings⟩

end Schema

end KeyedSchema
