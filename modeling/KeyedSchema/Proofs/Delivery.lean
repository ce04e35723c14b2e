import KeyedSchema.Proofs.Backlog
import KeyedSchema.Proofs.Tracking
import KeyedSchema.Session

/-!
# Delivery — what a listener to everything hears

A listener that is subscribed on everything hears each published event once and in order, whoever
else listens. So what it has heard is what was published, and whenever no table is in
secondary-change mode, that is what was raised: no event is lost or told twice, and the events of
each table come in their order. They rebuild the schema, whatever was held back in between.
-/

namespace KeyedSchema

/-! ## The bus -/

namespace Bus

variable {b : Bus} {first : Listener} {e : Event}

/-- What a listener hears leaves the subscriptions alone. -/
theorem hear_views (b : Bus) (listener : Nat) (e : Event) :
    (b.hear listener e).subscriptions = b.subscriptions ∧
      (b.hear listener e).byObject = b.byObject ∧
      (b.hear listener e).lastSubscription = b.lastSubscription := by
  unfold hear
  split <;> exact ⟨rfl, rfl, rfl⟩

/-- Whether the first listener is `first`, and hears everything once. -/
structure Attends (first : Listener) (b : Bus) : Prop where
  listener : b.listeners.head? = some first
  subscribed : ∃ n, b.subscriptions.get? ⟨1⟩ = some ⟨.everything, 0, n⟩
  others : ∀ id sub, b.subscriptions.get? id = some sub → id ≠ ⟨1⟩ → sub.listener ≠ 0
  nodup : b.subscriptions.keys.Nodup
  /-- The index leads to subscriptions on single objects only. -/
  indexed : ∀ ref, ⟨1⟩ ∉ b.subscriptionsFor ref
  issued : 1 ≤ b.lastSubscription

namespace Attends

theorem addListener (h : b.Attends first) (l : Listener) : (b.addListener l).Attends first := by
  refine ⟨?_, h.subscribed, h.others, h.nodup, h.indexed, h.issued⟩
  change (b.listeners ++ [l]).head? = _
  rw [List.head?_append, h.listener]
  rfl

theorem subscribe (h : b.Attends first) (topic : Topic) {listener : Nat} (hl : listener ≠ 0) :
    (b.subscribe topic listener).2.Attends first := by
  have hnew : (⟨b.lastSubscription + 1⟩ : SubscriptionId) ≠ ⟨1⟩ := by
    intro heq
    have := SubscriptionId.mk.inj heq
    have := h.issued
    omega
  refine ⟨h.listener, ?_, ?_, Roster.nodup_keys_insert h.nodup _ _, ?_, Nat.le_succ_of_le h.issued⟩
  · obtain ⟨n, hn⟩ := h.subscribed
    refine ⟨n, ?_⟩
    change (b.subscriptions.insert _ _).get? _ = _
    rw [Roster.get?_insert, if_neg hnew.symm, hn]
  · intro id sub hsub hid
    change (b.subscriptions.insert _ _).get? _ = _ at hsub
    rw [Roster.get?_insert] at hsub
    split at hsub
    · obtain rfl := Option.some.inj hsub
      exact hl
    · exact h.others id sub hsub hid
  · intro ref
    cases topic with
    | everything => exact h.indexed ref
    | object ref' =>
        change _ ∉ ((b.byObject.insert ref' (b.subscriptionsFor ref' ++ [_])).get? ref).getD []
        rw [Roster.get?_insert]
        split
        · rw [Option.getD_some, List.mem_append, List.mem_singleton]
          exact fun hmem => hmem.elim (h.indexed ref') hnew.symm
        · exact h.indexed ref

theorem unsubscribe (h : b.Attends first) {id : SubscriptionId} (hid : id ≠ ⟨1⟩) :
    (b.unsubscribe id).2.Attends first := by
  unfold Bus.unsubscribe
  split
  · exact h
  · rename_i sub hsub
    refine ⟨h.listener, ?_, ?_, Roster.nodup_keys_erase h.nodup id, ?_, h.issued⟩
    · obtain ⟨n, hn⟩ := h.subscribed
      refine ⟨n, ?_⟩
      change (b.subscriptions.erase id).get? _ = _
      rw [Roster.get?_erase, if_neg hid.symm, hn]
    · intro id' sub' hsub' hid'
      change (b.subscriptions.erase id).get? _ = _ at hsub'
      rw [Roster.get?_erase] at hsub'
      split at hsub'
      · cases hsub'
      · exact h.others id' sub' hsub' hid'
    · intro ref
      unfold subscriptionsFor
      dsimp only
      split
      · rename_i ref' _
        split
        · rw [Roster.get?_erase]
          split
          · exact List.not_mem_nil
          · exact h.indexed ref
        · rw [Roster.get?_insert]
          split
          · rw [Option.getD_some]
            exact fun hmem => h.indexed ref' (List.mem_filter.mp hmem).1
          · exact h.indexed ref
      · exact h.indexed ref

/-- Another subscription leaves the first listener alone. -/
theorem deliver_other (h : b.Attends first) {id : SubscriptionId} (hid : id ≠ ⟨1⟩) (e : Event) :
    (b.deliver e id).Attends first := by
  unfold deliver
  split
  · exact h
  · rename_i sub hsub
    split
    · have hlisteners : (b.hear sub.listener e).listeners.head? = b.listeners.head? := by
        have hpos := h.others id sub hsub hid
        unfold hear
        split
        · rfl
        · rw [List.head?_eq_getElem?, List.getElem?_set_ne hpos, ← List.head?_eq_getElem?]
        · rfl
      obtain ⟨hsubs, hindex, hlast⟩ := hear_views b sub.listener e
      refine ⟨hlisteners.trans h.listener, ?_, ?_, Roster.nodup_keys_modify h.nodup id _, ?_, ?_⟩
      · obtain ⟨n, hn⟩ := h.subscribed
        refine ⟨n, ?_⟩
        rw [Roster.get?_modify, if_neg hid.symm, hn]
      · intro id' sub' hsub' hid'
        rw [Roster.get?_modify] at hsub'
        split at hsub'
        · obtain ⟨sub₀, hsub₀, rfl⟩ := Option.map_eq_some_iff.mp hsub'
          exact h.others id' sub₀ hsub₀ hid'
        · exact h.others id' sub' hsub' hid'
      · intro ref
        unfold subscriptionsFor
        rw [hindex]
        exact h.indexed ref
      · exact hlast ▸ h.issued
    · exact h

/-- The first listener hears as it does by itself; a tape is kept by the bus. -/
theorem hear_first (h : b.Attends first) (e : Event) :
    (b.hear 0 e).listeners.head? = some (first.hear e) := by
  have hget : b.listeners[0]? = some first := by
    rw [← List.head?_eq_getElem?, h.listener]
  have hlt : 0 < b.listeners.length := (List.getElem?_eq_some_iff.mp hget).1
  unfold hear
  rw [hget]
  split
  · rename_i hmark
    rw [Option.some.inj hmark]
    exact h.listener.trans hmark
  · rename_i hfirst
    rw [List.head?_eq_getElem?, List.getElem?_set_self hlt, Option.some.inj hfirst]
  · rename_i hnone
    cases hnone

/-- The subscription of the first listener lets it hear. -/
theorem deliver_first (h : b.Attends first) (e : Event) :
    (b.deliver e ⟨1⟩).Attends (first.hear e) := by
  obtain ⟨n, hn⟩ := h.subscribed
  obtain ⟨hsubs, hindex, hlast⟩ := hear_views b 0 e
  have hdeliver : b.deliver e ⟨1⟩ = { b.hear 0 e with
      subscriptions := b.subscriptions.modify ⟨1⟩ fun s => { s with delivered := s.delivered + 1 } } := by
    unfold deliver
    rw [hn]
    dsimp only
    rw [if_pos (show Topic.everything.covers e = true from rfl)]
  rw [hdeliver]
  refine ⟨h.hear_first e, ⟨n + 1, ?_⟩, ?_, Roster.nodup_keys_modify h.nodup _ _, ?_, hlast ▸ h.issued⟩
  · rw [Roster.get?_modify, if_pos rfl, hn]
    rfl
  · intro id sub hsub hid
    rw [Roster.get?_modify, if_neg hid] at hsub
    exact h.others id sub hsub hid
  · intro ref
    unfold subscriptionsFor
    rw [hindex]
    exact h.indexed ref

/-- Deliveries to subscriptions among which the first one comes once. -/
theorem foldl_deliver (h : b.Attends first) (e : Event) {ids : List SubscriptionId}
    (hids : ids.count ⟨1⟩ = 1) : (ids.foldl (fun b id => b.deliver e id) b).Attends (first.hear e) := by
  have hothers : ∀ (ids : List SubscriptionId) {b : Bus} {first : Listener}, b.Attends first →
      ⟨1⟩ ∉ ids → (ids.foldl (fun b id => b.deliver e id) b).Attends first := by
    intro ids
    induction ids with
    | nil => exact fun h _ => h
    | cons id ids ih =>
        intro b first h hids
        obtain ⟨hid, hids⟩ := List.ne_and_not_mem_of_not_mem_cons hids
        exact ih (h.deliver_other hid.symm e) hids
  -- only the one delivery to the first subscription is heard
  obtain ⟨before, after, rfl⟩ :=
    List.append_of_mem (List.count_pos_iff.mp (Nat.lt_of_lt_of_eq Nat.one_pos hids.symm))
  rw [List.count_append, List.count_cons_self] at hids
  rw [List.foldl_append, List.foldl_cons]
  refine hothers after (deliver_first (hothers before h ?_) e) ?_
  · exact List.count_eq_zero.mp (by omega)
  · exact List.count_eq_zero.mp (by omega)

/-- The first listener is among those that an event goes to, once. -/
theorem count_route (h : b.Attends first) (e : Event) : (b.route e).count ⟨1⟩ = 1 := by
  obtain ⟨n, hn⟩ := h.subscribed
  have hwide : (b.subscriptions.keysWhere fun _ s => s.topic == .everything).count ⟨1⟩ = 1 := by
    refine List.count_eq_one_of_mem (h.nodup.sublist ?_)
      ((Roster.mem_keysWhere h.nodup _ _).mpr ⟨_, hn, rfl⟩)
    exact List.filter_sublist.map Prod.fst
  -- the subscriptions on single objects do not add the first one a second time
  unfold route
  split
  · exact hwide
  · rename_i ref _
    rw [(sortOn_perm _ _).count_eq, List.count_append, hwide, List.count_eq_zero.mpr (h.indexed ref)]

theorem publish (h : b.Attends first) (e : Event) : (b.publish e).Attends (first.hear e) :=
  h.foldl_deliver e (h.count_route e)

theorem publishAll (h : b.Attends first) (es : List Event) :
    (es.foldl Bus.publish b).Attends (es.foldl Listener.hear first) := by
  induction es generalizing b first with
  | nil => exact h
  | cons e es ih => exact ih (h.publish e)

end Attends

end Bus

/-! ## What is published stays published -/

namespace Schema

variable {s s' s₁ : Schema}

theorem published_raise (h : s₁.published = s.published) (e : Event) :
    s.published <+: (s₁.raise e).published := by
  unfold raise
  split
  · exact h ▸ List.prefix_rfl
  · exact h ▸ List.prefix_append _ _

theorem published_raiseAll (h : s₁.published = s.published) (es : List Event) :
    s.published <+: (s₁.raiseAll es).published := by
  induction es generalizing s s₁ with
  | nil => exact h ▸ List.prefix_rfl
  | cons e es ih => exact (published_raise h e).trans (ih rfl)

theorem Effect.published {moved : Option (RelationshipId × Option TableId)} (h : Effect moved s s') :
    s.published <+: s'.published := by
  cases h with
  | signal | resume => exact List.prefix_append _ _
  | skip h =>
      have hsame : s'.published = s.published := (congrArg Schema.published h.same).trans rfl
      exact hsame ▸ List.prefix_rfl
  | storeRelationship | eraseRelationship | suspend | forget => exact List.prefix_rfl
  | describeRelationship | describe =>
      refine published_raiseAll ?_ _
      rfl
  | appendTable | eraseTable | relist | placeColumn | dropColumn | describeColumn =>
      refine published_raise ?_ _
      rfl

theorem Effects.published {moved : Option (RelationshipId × Option TableId)} (h : Effects moved s s') :
    s.published <+: s'.published := by
  induction h with
  | refl => exact List.prefix_rfl
  | tail _ hlast ih => exact ih.trans hlast.published

end Schema

/-! ## Sessions -/

/-- The relationship that an act may give another child, and that child. -/
def Act.moved? (act : Act) : Option (RelationshipId × Option TableId) := act.move?.bind Move.moved?

namespace Workspace

variable {w : Workspace} {first : Listener}

/-- Whether the first listener, which started as `first`, has heard all that was published. -/
structure UpToDate (first : Listener) (w : Workspace) : Prop where
  attends : w.bus.Attends (w.schema.published.foldl Listener.hear first)
  delivered : w.delivered = w.schema.published.length

theorem UpToDate.perform {α : Type} (h : w.UpToDate first) (x : Edit α)
    (hpublished : w.schema.published <+: (x.perform w.schema).2.published) :
    (w.perform x).2.UpToDate first := by
  -- what is delivered is what was published since the last delivery
  obtain ⟨es, hes⟩ := hpublished
  refine ⟨?_, rfl⟩
  change (((x.perform w.schema).2.published.drop w.delivered).foldl Bus.publish w.bus).Attends
    ((x.perform w.schema).2.published.foldl Listener.hear first)
  rw [← hes, h.delivered, List.drop_left, List.foldl_append]
  exact h.attends.publishAll es

end Workspace

namespace Session

open Schema

variable {s : Session} {first : Listener}

theorem upToDate_start (config : Config) (first : Listener) :
    (startWith config first).workspace.UpToDate first := by
  refine ⟨⟨rfl, ⟨0, rfl⟩, ?_, List.nodup_singleton _, fun _ => List.not_mem_nil, Nat.le_refl _⟩, rfl⟩
  intro id sub hsub hid
  have hsubs : (startWith config first).workspace.bus.subscriptions =
      Roster.empty.insert ⟨1⟩ ⟨.everything, 0, 0⟩ := rfl
  rw [hsubs, Roster.get?_insert, if_neg hid] at hsub
  cases hsub

/-- What an act does to a tidy schema is a series of effects. -/
theorem effects_after (hs : s.schema.Tidy) (act : Act) :
    Effects act.moved? s.schema (s.after act).schema := by
  cases act with
  | move m =>
      have h := Moment.effects_after (m := s.moment) hs m
      rwa [← moment_afterMove] at h
  | addListener | subscribe | unsubscribe => exact .refl

theorem workspace_enter (s : Session) (scope : Scope) :
    (s.afterMove (.enter scope)).workspace = (s.workspace.perform (Edit.enter scope)).2 := by
  unfold afterMove
  dsimp only
  split <;> rename_i h <;> rw [h]

/-- Acts that spare the first listener keep it up to date. -/
theorem upToDate_after (h : s.workspace.UpToDate first) (hs : s.schema.Tidy) {act : Act}
    (hact : act.sparesFirst = true) : (s.after act).workspace.UpToDate first := by
  have hpublished := Effects.published (effects_after hs act)
  cases act with
  | move m =>
      cases m with
      | edit op => exact h.perform op.edit hpublished
      | enter scope =>
          change (s.afterMove (.enter scope)).workspace.UpToDate first
          unfold schema at hpublished
          rw [show s.after (.move (.enter scope)) = s.afterMove (.enter scope) from rfl,
            workspace_enter] at hpublished
          rw [workspace_enter]
          exact h.perform (Edit.enter scope) hpublished
      -- closing a scope where none is open does nothing
      | leave =>
          obtain ⟨w, scopes⟩ := s
          cases scopes with
          | nil => exact h
          | cons opened outer => exact h.perform (Edit.leave opened) hpublished
  | addListener l => exact ⟨h.attends.addListener l, h.delivered⟩
  | subscribe topic listener =>
      exact ⟨h.attends.subscribe topic (of_decide_eq_true hact), h.delivered⟩
  | unsubscribe id => exact ⟨h.attends.unsubscribe (of_decide_eq_true hact), h.delivered⟩

theorem upToDate_run (h : s.workspace.UpToDate first) (hs : s.schema.Tidy) {acts : List Act}
    (hacts : ∀ act ∈ acts, act.sparesFirst = true) : (s.run acts).workspace.UpToDate first := by
  induction acts generalizing s with
  | nil => exact h
  | cons act acts ih =>
      rw [List.forall_mem_cons] at hacts
      exact ih (upToDate_after h hs hacts.1) (Effects.tidy (effects_after hs act) hs) hacts.2

/-- The first listener hears what is published, and nothing else. -/
theorem first_run (config : Config) (first : Listener) {acts : List Act}
    (hacts : ∀ act ∈ acts, act.sparesFirst = true) :
    ((startWith config first).run acts).workspace.bus.listeners.head? =
      some (((startWith config first).run acts).schema.published.foldl Listener.hear first) :=
  (upToDate_run (upToDate_start config first) (Tidy.ofConfig config) hacts).attends.listener

/-- A log keeps every event. -/
theorem foldl_hear_log (es log : List Event) :
    es.foldl Listener.hear (.log log) = .log (log ++ es) := by
  induction es generalizing log with
  | nil => rw [List.append_nil, List.foldl_nil]
  | cons e es ih => simp [Listener.hear, ih]

theorem heard_run (config : Config) {acts : List Act}
    (hacts : ∀ act ∈ acts, act.sparesFirst = true) :
    ((start config).run acts).heard = ((start config).run acts).schema.published := by
  unfold heard
  rw [start_eq, first_run config _ hacts, foldl_hear_log]
  rfl

/-- The schema of a session is that of a run. -/
theorem schema_run (config : Config) (acts : List Act) : ((start config).run acts).schema =
    ((Moment.start config).run (acts.filterMap Act.move?)).schema :=
  congrArg Moment.schema (moment_run (start config) acts)

theorem tidy_run (config : Config) (acts : List Act) : ((start config).run acts).schema.Tidy := by
  rw [schema_run]
  exact Moment.tidy_run config _

theorem owes_run (config : Config) (acts : List Act) : ((start config).run acts).schema.Owes := by
  rw [schema_run]
  exact Moment.owes_run config _

theorem tracked_run (config : Config) (acts : List Act) :
    ((start config).run acts).schema.Tracked := by
  rw [schema_run]
  exact Moment.tracked_run config _

end Session

namespace Schema

variable {s : Schema}

/-- No table holds events back where none is in the mode. -/
theorem isHolding_eq_false (hs : s.Tidy)
    (hmode : s.tables.anyEntry (fun _ tbl => tbl.inSecondaryChange) = false) (t : TableId) :
    s.isHolding t = false := by
  rw [Bool.eq_false_iff] at hmode ⊢
  intro ht
  obtain ⟨tbl, htbl, hon⟩ := isHolding_iff.mp ht
  exact hmode ((Roster.anyEntry_iff hs.tables_nodup _).mpr ⟨t, tbl, htbl, hon⟩)

end Schema

/-- What is in the same order stays so when less of it is looked at. -/
theorem filter_of_filter {α : Type} {p q : α → Bool} {as bs : List α} (h : ∀ a, p a = true → q a = true)
    (heq : as.filter q = bs.filter q) : as.filter p = bs.filter p := by
  have hboth : ∀ cs : List α, (cs.filter q).filter p = cs.filter p := by
    intro cs
    rw [List.filter_filter]
    refine List.filter_congr fun a _ => ?_
    cases ha : p a with
    | true => rw [h a ha, Bool.and_self]
    | false => rfl
  rw [← hboth as, heq, hboth bs]

namespace Session

open Schema

/-- Events are held back only for tables that are there and in secondary-change mode. So whenever no
table is in the mode, a listener to everything that was there from the start has heard the events
that were raised, each as often as it was, and those of each table and of its columns in the order
in which they were raised. -/
theorem hears_all (config : Config) (acts : List Act)
    (hacts : ∀ act ∈ acts, act.sparesFirst = true) :
    let s := (start config).run acts
    (∀ t, ∀ e ∈ s.schema.heldFor t,
      ∃ tbl, s.schema.tables.get? t = some tbl ∧ tbl.inSecondaryChange = true) ∧
    (s.schema.tables.anyEntry (fun _ tbl => tbl.inSecondaryChange) = false →
      s.heard.Perm s.schema.raised ∧
      ∀ t, s.heard.filter (s.schema.isOfTable t) = s.schema.raised.filter (s.schema.isOfTable t)) := by
  intro s
  have howes : s.schema.Owes := owes_run config acts
  refine ⟨fun t e he => ?_, fun hmode => ?_⟩
  · exact isHolding_iff.mp (howes.holding t (List.ne_nil_of_mem he))
  · have hnone := isHolding_eq_false (tidy_run config acts) hmode
    have hheard : s.heard = s.schema.published := heard_run config hacts
    rw [hheard]
    refine ⟨howes.published_perm hnone, fun t => ?_⟩
    refine filter_of_filter (fun e he => ?_) (howes.published_order hnone t)
    unfold concerns
    rw [he, Bool.true_or]

/-- Whenever no table is in secondary-change mode, what a listener to everything has heard since the
start rebuilds the schema. Every event of a child that was put in or taken out fits where it comes,
and the outcome is the order of the tables and the columns and registrations of each. And from what
a column was put in as, every change of an attribute starts from the value that the client has, and
the outcome is the column as it is, its rank included. -/
theorem rebuilds (config : Config) (acts : List Act) (hacts : ∀ act ∈ acts, act.sparesFirst = true) :
    let s := (start config).run acts
    s.schema.tables.anyEntry (fun _ tbl => tbl.inSecondaryChange) = false →
      ({} : Replica).replay? s.heard = some s.schema.replica ∧
      ∀ c col, s.schema.columns.get? c = some col →
        ∃ origin, s.schema.origins.get? c = some origin ∧ origin.replay? c s.heard = some col := by
  intro s hmode
  have howes : s.schema.Owes := owes_run config acts
  have htracked : s.schema.Tracked := tracked_run config acts
  have htidy : s.schema.Tidy := tidy_run config acts
  have hsound : s.schema.Sound := Reachable.sound ⟨config, _, (schema_run config acts).symm⟩
  have hnone := isHolding_eq_false htidy hmode
  have hheard : s.heard = s.schema.published := heard_run config hacts
  have horder := howes.published_order hnone
  rw [hheard]
  refine ⟨Replica.replay?_congr htracked.lists howes.schema fun t => ?_, fun c col hcol => ?_⟩
  · refine filter_of_filter (fun e he => ?_) (horder t)
    unfold concerns
    rw [he, Bool.or_true]
  · obtain ⟨origin, horigin, hreplay⟩ := htracked.columns c col hcol
    refine ⟨origin, horigin, ?_⟩
    -- the events of a column are in order because those of its table are
    obtain ⟨t, ht⟩ := hsound.owned c (Roster.contains_of_get? hcol)
    obtain ⟨origin', horigin', htable⟩ := htidy.stored c col hcol
    have hhome : s.schema.home? c = some t := by
      rw [home?, horigin', Option.bind_some, htable, ← owner?_of_get? hcol, ht]
    rw [Column.replay?_congr ?_ origin]
    · exact hreplay
    · refine filter_of_filter (fun e he => ?_) (horder t)
      exact concerns_iff.mpr (.inr (.inl ⟨c, of_decide_eq_true he, hhome⟩))

/-- Two tables in the mode at the same time, a third one that is removed in it, and an edit that is
refused in the middle. -/
def overlappingActs : List Act :=
  [.move (.edit (.addTable { name := "a" })),
    .move (.edit (.addColumn ⟨1⟩ { name := "id", rank := some 0 })),
    .move (.edit (.addTable { name := "b" })),
    .move (.edit (.createRelationship { name := "ab", identifying := true })),
    .move (.edit (.attachRelationship ⟨1⟩ ⟨1⟩ ⟨2⟩ true)),
    .addListener .silent,
    .subscribe (.object (.table ⟨2⟩)) 1,
    .move (.enter (.secondaryChange ⟨2⟩)),
    .move (.enter (.secondaryChange ⟨1⟩)),
    .move (.edit (.insertColumn ⟨2⟩ 0 { name := "no", rank := some 0 })),
    .move (.edit (.addColumn ⟨1⟩ { name := "part", rank := some 0 })),
    .move (.edit (.setColumnName ⟨3⟩ "number")),
    .move (.edit (.addColumn ⟨7⟩ { name := "lost" })),
    .move (.edit (.addTable { name := "c" })),
    .move .leave,
    .move (.edit (.setSecondaryChangeMode ⟨3⟩ true)),
    .move (.edit (.addColumn ⟨3⟩ { name := "x" })),
    .move (.edit (.removeTable ⟨3⟩)),
    .move .leave,
    .unsubscribe ⟨2⟩]

/-- Events that were held back come late, and still none is missing and each table has its order. -/
theorem hears_all_overlapping :
    (∀ act ∈ overlappingActs, act.sparesFirst = true) ∧
    ((start {}).run overlappingActs).schema.tables.anyEntry (fun _ tbl => tbl.inSecondaryChange) =
      false ∧
    ((start {}).run overlappingActs).heard ≠ ((start {}).run overlappingActs).schema.raised ∧
    ((start {}).run overlappingActs).heard.Perm ((start {}).run overlappingActs).schema.raised ∧
    ∀ t, ((start {}).run overlappingActs).heard.filter
        (((start {}).run overlappingActs).schema.isOfTable t) =
      ((start {}).run overlappingActs).schema.raised.filter
        (((start {}).run overlappingActs).schema.isOfTable t) := by
  have hacts : ∀ act ∈ overlappingActs, act.sparesFirst = true := by decide +kernel
  have hmode : ((start {}).run overlappingActs).schema.tables.anyEntry
      (fun _ tbl => tbl.inSecondaryChange) = false := by decide +kernel
  have hlate : ((start {}).run overlappingActs).heard ≠
      ((start {}).run overlappingActs).schema.raised := by decide +kernel
  obtain ⟨-, hheard⟩ := hears_all {} overlappingActs hacts
  exact ⟨hacts, hmode, hlate, hheard hmode⟩

/-- A column that a cascade put into a table in the mode, and that got its rank in two steps, is
rebuilt from what it was put in as. -/
theorem rebuilds_overlapping :
    (∀ act ∈ overlappingActs, act.sparesFirst = true) ∧
    ((start {}).run overlappingActs).schema.tables.anyEntry (fun _ tbl => tbl.inSecondaryChange) =
      false ∧
    ((start {}).run overlappingActs).schema.replica.tables = [⟨1⟩, ⟨2⟩] ∧
    ({} : Replica).replay? ((start {}).run overlappingActs).heard =
      some ((start {}).run overlappingActs).schema.replica ∧
    ∃ origin, ((start {}).run overlappingActs).schema.origins.get? ⟨5⟩ = some origin ∧
      origin.replay? ⟨5⟩ ((start {}).run overlappingActs).heard =
        some { name := "part", rank := some 2, table := some ⟨2⟩ } := by
  have hacts : ∀ act ∈ overlappingActs, act.sparesFirst = true := by decide +kernel
  have hmode : ((start {}).run overlappingActs).schema.tables.anyEntry
      (fun _ tbl => tbl.inSecondaryChange) = false := by decide +kernel
  obtain ⟨hreplica, hcolumns⟩ := rebuilds {} overlappingActs hacts hmode
  exact ⟨hacts, hmode, by decide +kernel, hreplica, hcolumns ⟨5⟩ _ (by decide +kernel)⟩

end Session

end KeyedSchema
