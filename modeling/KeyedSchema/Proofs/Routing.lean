import KeyedSchema.Bus.Roll
import KeyedSchema.Proofs.Roster

/-!
# Routing — the index finds whom the roll names

`Roll.Kept` ties a bus to the roll of its subscriptions: the entries of the bus are the members in
their order, the numbers ascend, and what the index has for an object is what a scan of the roll
finds. Every call keeps it. On such a bus the indexed search of `route` gives exactly the members
that an event is for, so publishing is one pass over them in the order of their numbers.
-/

namespace KeyedSchema

/-! ## Changing several entries of a roster -/

namespace Roster

variable {κ α : Type} [DecidableEq κ]

theorem change_eq_map (k : κ) (f : α → α) (es : List (κ × α)) :
    change k f es = es.map fun e => (e.1, if e.1 = k then f e.2 else e.2) := by
  induction es with
  | nil => rfl
  | cons e rest ih => simp [change, ih]

/-- Changing the values of different keys one after the other changes each of them once. -/
theorem foldl_modify (f : α → α) (ks : List κ) (h : ks.Nodup) (m : Roster κ α) :
    (ks.foldl (fun m k => m.modify k f) m).entries =
      m.entries.map fun e => (e.1, if e.1 ∈ ks then f e.2 else e.2) := by
  induction ks generalizing m with
  | nil => simp
  | cons k ks ih =>
      obtain ⟨hk, hks⟩ := List.nodup_cons.mp h
      rw [List.foldl_cons, ih hks, modify, change_eq_map, List.map_map]
      refine List.map_congr_left fun e _ => ?_
      by_cases he : e.1 = k
      · subst he
        simp [hk]
      · simp [he]

end Roster

/-! ## What a topic covers -/

theorem Topic.covers_of_source_none {e : Event} (h : e.source? = none) (t : Topic) :
    t.covers e = decide (t = .everything) := by
  cases t <;> simp [Topic.covers, h]

theorem Topic.covers_of_source {e : Event} {ref : ObjectRef} (h : e.source? = some ref) (t : Topic) :
    t.covers e = (decide (t = .everything) || decide (t = .object ref)) := by
  cases t with
  | everything => rfl
  | object ref' =>
      by_cases hr : ref = ref'
      · simp [Topic.covers, h, hr]
      · simp [Topic.covers, h, hr, Ne.symm hr]

/-! ## Members -/

namespace Member

variable (e : Event) (m : Member)

@[simp] theorem keep_id : (m.keep e).id = m.id := by
  unfold keep
  split <;> rfl

@[simp] theorem keep_topic : (m.keep e).topic = m.topic := by
  unfold keep
  split <;> rfl

end Member

/-! ## A bus and its roll -/

/-- The bus has the subscriptions of the roll, and its index finds them. -/
structure Roll.Kept (roll : Roll) (b : Bus) : Prop where
  entries : b.subscriptions.entries = roll.members.map fun m => (m.id, m.subscription)
  ascending : roll.members.Pairwise fun m m' => m.id.val < m'.id.val
  numbered : ∀ m ∈ roll.members, m.id.val ≤ roll.last
  last : b.lastSubscription = roll.last
  index : ∀ ref, b.subscriptionsFor ref = (roll.listeningTo ref).map Member.id

namespace Roll.Kept

variable {roll : Roll} {b : Bus}

theorem keys (h : roll.Kept b) : b.subscriptions.keys = roll.members.map Member.id := by
  simp [Roster.keys, h.entries]

theorem nodup (h : roll.Kept b) : (roll.members.map Member.id).Nodup := by
  refine List.pairwise_map.mpr (h.ascending.imp fun hlt heq => ?_)
  rw [heq] at hlt
  exact Nat.lt_irrefl _ hlt

/-- Two members with one number are the same. -/
theorem eq_of_id (h : roll.Kept b) {m m' : Member} (hm : m ∈ roll.members) (hm' : m' ∈ roll.members)
    (hid : m.id = m'.id) : m = m' :=
  List.inj_on_of_nodup_map h.nodup hm hm' hid

/-- Looking a number up finds the member that has it. -/
theorem get?_eq_some_iff (h : roll.Kept b) (id : SubscriptionId) (s : Subscription) :
    b.subscriptions.get? id = some s ↔ ∃ m ∈ roll.members, m.id = id ∧ m.subscription = s := by
  rw [Roster.get?_eq_some_iff (h.keys ▸ h.nodup), h.entries]
  simp

theorem keysWhere_eq (h : roll.Kept b) (p : Topic → Bool) :
    (b.subscriptions.keysWhere fun _ s => p s.topic) =
      (roll.members.filter fun m => p m.topic).map Member.id := by
  rw [Roster.keysWhere, h.entries, List.filter_map, List.map_map]
  rfl

/-! ## Routing -/

/-- The members that hear everything and those on the source of the event are all it is for. -/
theorem wide_append_listeningTo_perm {e : Event} {ref : ObjectRef} (hsource : e.source? = some ref) :
    ((roll.members.filter fun m => m.topic = .everything) ++ roll.listeningTo ref).Perm
      (roll.addressees e) := by
  have hsplit := List.filter_append_perm (fun m => m.topic = .everything) (roll.addressees e)
  have hwide : (roll.addressees e).filter (fun m => m.topic = .everything) =
      roll.members.filter fun m => m.topic = .everything := by
    rw [addressees, List.filter_filter]
    refine List.filter_congr fun m _ => ?_
    rw [Topic.covers_of_source hsource]
    cases decide (m.topic = .everything) <;> rfl
  have hnarrow : (roll.addressees e).filter (fun m => !decide (m.topic = .everything)) =
      roll.listeningTo ref := by
    rw [addressees, listeningTo, List.filter_filter]
    refine List.filter_congr fun m _ => ?_
    rw [Topic.covers_of_source hsource]
    cases m.topic <;> simp
  rwa [hwide, hnarrow] at hsplit

/-- The indexed search finds the members that an event is for, in the order of their numbers. -/
theorem route_eq (h : roll.Kept b) (e : Event) : b.route e = (roll.addressees e).map Member.id := by
  have hwide : (b.subscriptions.keysWhere fun _ s => s.topic == .everything) =
      (roll.members.filter fun m => m.topic = .everything).map Member.id :=
    h.keysWhere_eq fun t => t = .everything
  unfold Bus.route
  cases hsource : e.source? with
  | none =>
      simp only [hwide, addressees]
      exact congrArg _ (List.filter_congr fun m _ => (Topic.covers_of_source_none hsource _).symm)
  | some ref =>
      simp only [hwide, h.index ref, ← List.map_append]
      -- both sides ascend, and no two numbers are equal
      have hascending : ((roll.addressees e).map Member.id).Pairwise fun i j => i.val ≤ j.val :=
        List.pairwise_map.mpr ((h.ascending.imp Nat.le_of_lt).filter _)
      refine List.Perm.eq_of_pairwise ?_ (sortOn_sorted _ _) hascending
        ((sortOn_perm _ _).trans ((wide_append_listeningTo_perm hsource).map _))
      intro i j _ _ hij hji
      cases i
      cases j
      exact congrArg _ (Nat.le_antisymm hij hji)

/-- The indexed search finds what asking each subscription finds. -/
theorem route_eq_audience (h : roll.Kept b) (e : Event) : b.route e = b.audience e :=
  (h.route_eq e).trans (h.keysWhere_eq fun t => t.covers e).symm

end Roll.Kept

/-! ## Handing an event over -/

namespace Bus

variable {b : Bus}

@[simp] theorem hear_byObject (b : Bus) (listener : Nat) (e : Event) :
    (b.hear listener e).byObject = b.byObject := by
  unfold hear
  split <;> rfl

@[simp] theorem hear_lastSubscription (b : Bus) (listener : Nat) (e : Event) :
    (b.hear listener e).lastSubscription = b.lastSubscription := by
  unfold hear
  split <;> rfl

/-- Hearing an event does not turn a listener into one of another kind. -/
@[simp] theorem mark?_hear (b : Bus) (listener other : Nat) (e : Event) :
    (b.hear listener e).mark? other = b.mark? other := by
  unfold hear
  split
  · rfl
  · rename_i l htape hl
    by_cases ho : listener = other
    · subst ho
      have hset : ((b.listeners.set listener (l.hear e)))[listener]? = some (l.hear e) := by
        rw [List.getElem?_set_self (List.getElem?_eq_some_iff.mp hl).1]
      simp only [mark?, hset, hl]
      cases l with
      | tape mark => exact absurd rfl (htape mark)
      | counter | log | tracker | silent => rfl
    · simp only [mark?, List.getElem?_set_ne ho]
  · rfl

theorem tape_hear (b : Bus) (listener : Nat) (e : Event) :
    (b.hear listener e).tape = b.tape ++ ((b.mark? listener).map fun mark => (mark, e)).toList := by
  unfold hear mark?
  split
  · rename_i mark h
    simp [h]
  · rename_i l htape h
    cases l with
    | tape mark => exact absurd rfl (htape mark)
    | counter | log | tracker | silent => simp [h]
  · rename_i h
    simp [h]

/-! Handing an event to a list of members changes their counters, their listeners and the tape. -/

theorem handAll_byObject (e : Event) (ms : List Member) (b : Bus) :
    (ms.foldl (hand e) b).byObject = b.byObject := by
  induction ms generalizing b with
  | nil => rfl
  | cons m ms ih => rw [List.foldl_cons, ih, hand, hear_byObject]

theorem handAll_lastSubscription (e : Event) (ms : List Member) (b : Bus) :
    (ms.foldl (hand e) b).lastSubscription = b.lastSubscription := by
  induction ms generalizing b with
  | nil => rfl
  | cons m ms ih => rw [List.foldl_cons, ih, hand, hear_lastSubscription]

theorem handAll_subscriptions (e : Event) (ms : List Member) (b : Bus) :
    (ms.foldl (hand e) b).subscriptions =
      (ms.map Member.id).foldl
        (fun m id => m.modify id fun s => { s with delivered := s.delivered + 1 }) b.subscriptions := by
  induction ms generalizing b with
  | nil => rfl
  | cons m ms ih => rw [List.foldl_cons, ih, hand, List.map_cons, List.foldl_cons]

theorem handAll_tape (e : Event) (ms : List Member) (b : Bus) :
    (ms.foldl (hand e) b).tape =
      b.tape ++ ms.filterMap fun m => (b.mark? m.listener).map fun mark => (mark, e) := by
  induction ms generalizing b with
  | nil => simp
  | cons m ms ih =>
      have hmark : (hand e b m).mark? = b.mark? := funext fun other => mark?_hear b m.listener other e
      have htape : (hand e b m).tape = (b.hear m.listener e).tape := rfl
      rw [List.foldl_cons, ih, hmark, htape, tape_hear, List.append_assoc, List.filterMap_cons]
      cases b.mark? m.listener <;> rfl

/-- Delivering under a number hands the event to the member that has it. -/
theorem deliver_eq_hand {e : Event} {m : Member} {s : Subscription}
    (hget : b.subscriptions.get? m.id = some s) (htopic : s.topic = m.topic)
    (hlistener : s.listener = m.listener) (hcovers : m.topic.covers e = true) :
    b.deliver e m.id = hand e b m := by
  simp [deliver, hget, htopic, hlistener, hcovers, hand]

/-- A handover leaves topics and listeners alone. -/
theorem hand_get? (e : Event) (m : Member) {id : SubscriptionId} {s : Subscription}
    (hget : b.subscriptions.get? id = some s) :
    ∃ s', (hand e b m).subscriptions.get? id = some s' ∧ s'.topic = s.topic ∧
      s'.listener = s.listener := by
  by_cases hid : id = m.id
  · exact ⟨{ s with delivered := s.delivered + 1 }, by simp [hand, ← hid, hget], rfl, rfl⟩
  · exact ⟨s, by simp [hand, hid, hget], rfl, rfl⟩

end Bus

namespace Roll.Kept

variable {roll : Roll} {b : Bus}

/-- Publishing is one pass over the members that the event is for. -/
theorem publish_eq (h : roll.Kept b) (e : Event) :
    b.publish e = (roll.addressees e).foldl (Bus.hand e) b := by
  have hfold : ∀ ms : List Member, (∀ m ∈ ms, m.topic.covers e = true) → ∀ b : Bus,
      (∀ m ∈ ms, ∃ s, b.subscriptions.get? m.id = some s ∧ s.topic = m.topic ∧
        s.listener = m.listener) →
      (ms.map Member.id).foldl (fun b id => b.deliver e id) b = ms.foldl (Bus.hand e) b := by
    intro ms hcovers
    induction ms with
    | nil => exact fun _ _ => rfl
    | cons m ms ih =>
        intro b hhas
        obtain ⟨s, hget, htopic, hlistener⟩ := hhas m (List.mem_cons_self ..)
        rw [List.map_cons, List.foldl_cons, List.foldl_cons,
          Bus.deliver_eq_hand hget htopic hlistener (hcovers m (List.mem_cons_self ..))]
        refine ih (fun m' hm' => hcovers m' (List.mem_cons_of_mem _ hm')) _ fun m' hm' => ?_
        obtain ⟨s₀, hget₀, htopic₀, hlistener₀⟩ := hhas m' (List.mem_cons_of_mem _ hm')
        obtain ⟨s₁, hget₁, htopic₁, hlistener₁⟩ := Bus.hand_get? e m hget₀
        exact ⟨s₁, hget₁, htopic₁.trans htopic₀, hlistener₁.trans hlistener₀⟩
  rw [Bus.publish, h.route_eq]
  refine hfold _ (fun m hm => (List.mem_filter.mp hm).2) b fun m hm => ?_
  exact ⟨m.subscription,
    (h.get?_eq_some_iff m.id _).mpr ⟨m, (List.mem_filter.mp hm).1, rfl, rfl⟩, rfl, rfl⟩

/-! ## Every call keeps the roll -/

theorem start : ({} : Roll).Kept {} where
  entries := rfl
  ascending := List.Pairwise.nil
  numbered := fun _ hm => absurd hm List.not_mem_nil
  last := rfl
  index := fun _ => rfl

theorem addListener (h : roll.Kept b) (l : Listener) : roll.Kept (b.addListener l) where
  entries := h.entries
  ascending := h.ascending
  numbered := h.numbered
  last := h.last
  index := h.index

/-- A number that no subscription has had is not in the bus. -/
theorem get?_next (h : roll.Kept b) : b.subscriptions.get? ⟨roll.last + 1⟩ = none := by
  refine Option.eq_none_iff_forall_ne_some.mpr fun s hs => ?_
  obtain ⟨m, hm, hid, -⟩ := (h.get?_eq_some_iff _ s).mp hs
  have hle := h.numbered m hm
  rw [hid] at hle
  exact absurd hle (Nat.not_succ_le_self _)

theorem subscribe (h : roll.Kept b) (topic : Topic) (listener : Nat) :
    (roll.after (.subscribe topic listener)).Kept (b.subscribe topic listener).2 where
  entries := by
    have hnew := (Roster.contains_eq_false_iff _ _).mpr h.get?_next
    simp [Bus.subscribe, h.last, Roster.insert, hnew, h.entries, Roll.after, Member.subscription]
  ascending := by
    refine List.pairwise_append.mpr ⟨h.ascending, List.pairwise_singleton _ _, ?_⟩
    intro m hm m' hm'
    obtain rfl := List.mem_singleton.mp hm'
    exact Nat.lt_succ_of_le (h.numbered m hm)
  numbered := by
    intro m hm
    rcases List.mem_append.mp hm with hm | hm
    · exact Nat.le_succ_of_le (h.numbered m hm)
    · obtain rfl := List.mem_singleton.mp hm
      exact Nat.le_refl _
  last := by simp [Bus.subscribe, h.last, Roll.after]
  index := by
    intro ref
    have hold := h.index ref
    simp only [Roll.listeningTo, Roll.after, List.filter_append, List.map_append] at hold ⊢
    cases topic with
    | everything => simpa [Bus.subscribe, Bus.subscriptionsFor] using hold
    | object ref' =>
        by_cases hr : ref = ref'
        · subst hr
          simp [Bus.subscribe, Bus.subscriptionsFor, h.last, ← hold]
        · simpa [Bus.subscribe, Bus.subscriptionsFor, hr, Ne.symm hr] using hold

/-- Taking a subscription away takes its number out of the index, wherever it was. -/
theorem subscriptionsFor_unsubscribe (h : roll.Kept b) (id : SubscriptionId) (ref : ObjectRef) :
    (b.unsubscribe id).2.subscriptionsFor ref =
      (b.subscriptionsFor ref).filter fun other => other ≠ id := by
  -- a number in the index of an object belongs to a member on that object
  have hmem : id ∈ b.subscriptionsFor ref →
      ∃ s, b.subscriptions.get? id = some s ∧ s.topic = .object ref := by
    rw [h.index ref]
    intro hid
    obtain ⟨m, hm, rfl⟩ := List.mem_map.mp hid
    obtain ⟨hm, htopic⟩ := List.mem_filter.mp hm
    exact ⟨m.subscription, (h.get?_eq_some_iff _ _).mpr ⟨m, hm, rfl, rfl⟩,
      of_decide_eq_true htopic⟩
  have hunaffected : id ∉ b.subscriptionsFor ref →
      (b.subscriptionsFor ref).filter (fun other => other ≠ id) = b.subscriptionsFor ref :=
    fun hid => List.filter_eq_self.mpr fun other hother => by
      simpa using fun heq : other = id => hid (heq ▸ hother)
  unfold Bus.unsubscribe
  split
  · rename_i hnone
    refine (hunaffected fun hid => ?_).symm
    obtain ⟨s, hs, -⟩ := hmem hid
    simp [hs] at hnone
  · rename_i s hs
    have hother (htopic : s.topic ≠ .object ref) :
        (b.subscriptionsFor ref).filter (fun other => other ≠ id) = b.subscriptionsFor ref := by
      refine hunaffected fun hid => ?_
      obtain ⟨s', hs', htopic'⟩ := hmem hid
      rw [hs] at hs'
      obtain rfl := Option.some.inj hs'
      exact htopic htopic'
    cases htopic : s.topic with
    | everything =>
        rw [hother (by simp [htopic])]
        rfl
    | object ref' =>
        by_cases hr : ref' = ref
        · subst hr
          dsimp only
          cases (b.subscriptionsFor ref').filter fun other => other ≠ id with
          | nil => simp [Bus.subscriptionsFor]
          | cons i rest => simp [Bus.subscriptionsFor]
        · rw [hother (by simp [htopic, hr])]
          dsimp only
          cases (b.subscriptionsFor ref').filter fun other => other ≠ id with
          | nil => simp [Bus.subscriptionsFor, Ne.symm hr]
          | cons i rest => simp [Bus.subscriptionsFor, Ne.symm hr]

theorem unsubscribe (h : roll.Kept b) (id : SubscriptionId) :
    (roll.after (.unsubscribe id)).Kept (b.unsubscribe id).2 where
  entries := by
    have hfilter : (roll.members.filter fun m => m.id ≠ id).map (fun m => (m.id, m.subscription)) =
        b.subscriptions.entries.filter fun e => e.1 ≠ id := by
      rw [h.entries, List.filter_map]
      rfl
    simp only [Roll.after, hfilter]
    unfold Bus.unsubscribe
    split
    · rename_i hnone
      refine (List.filter_eq_self.mpr fun e he => ?_).symm
      have hkey := (b.subscriptions.mem_keys_iff e.1).mp (List.mem_map_of_mem he)
      have habsent := (Roster.contains_eq_false_iff _ _).mpr hnone
      simpa using fun heq : e.1 = id => by simp [← heq, hkey] at habsent
    · rfl
  ascending := h.ascending.filter _
  numbered := fun m hm => h.numbered m (List.mem_filter.mp hm).1
  last := by
    have hlast : (b.unsubscribe id).2.lastSubscription = b.lastSubscription := by
      unfold Bus.unsubscribe
      split <;> rfl
    rw [hlast, h.last]
    rfl
  index := by
    intro ref
    rw [h.subscriptionsFor_unsubscribe, h.index ref]
    simp only [Roll.listeningTo, Roll.after, List.filter_map, List.filter_filter]
    exact congrArg _ (List.filter_congr fun m _ => Bool.and_comm _ _)

theorem publish (h : roll.Kept b) (e : Event) :
    (roll.after (.publish e)).Kept (b.publish e) where
  entries := by
    have hids : ((roll.addressees e).map Member.id).Nodup :=
      h.nodup.sublist (List.filter_sublist.map _)
    rw [h.publish_eq, Bus.handAll_subscriptions, Roster.foldl_modify _ _ hids, h.entries]
    simp only [Roll.after, List.map_map]
    refine List.map_congr_left fun m hm => ?_
    have hmem : m.id ∈ (roll.addressees e).map Member.id ↔ m.topic.covers e = true := by
      constructor
      · intro hid
        obtain ⟨m', hm', hid'⟩ := List.mem_map.mp hid
        obtain ⟨hm', hcovers⟩ := List.mem_filter.mp hm'
        exact h.eq_of_id hm' hm hid' ▸ hcovers
      · exact fun hcovers => List.mem_map_of_mem (List.mem_filter.mpr ⟨hm, hcovers⟩)
    by_cases hcovers : m.topic.covers e = true
    · simp only [Function.comp_apply, if_pos (hmem.mpr hcovers)]
      simp [Member.keep, hcovers, Member.subscription]
    · simp only [Function.comp_apply, if_neg (mt hmem.mp hcovers)]
      simp [Member.keep, hcovers]
  ascending := List.pairwise_map.mpr (h.ascending.imp fun hlt => by simpa using hlt)
  numbered := by
    intro m hm
    obtain ⟨m₀, hm₀, rfl⟩ := List.mem_map.mp hm
    simpa [Roll.after] using h.numbered m₀ hm₀
  last := by rw [h.publish_eq, Bus.handAll_lastSubscription, h.last]; rfl
  index := by
    intro ref
    have hindex : (b.publish e).subscriptionsFor ref = b.subscriptionsFor ref := by
      rw [h.publish_eq, Bus.subscriptionsFor, Bus.handAll_byObject, Bus.subscriptionsFor]
    rw [hindex, h.index ref]
    simp [Roll.listeningTo, Roll.after, List.filter_map, Function.comp_def]

/-- The roll of a bus stays its roll over every call. -/
theorem after (h : roll.Kept b) (call : Bus.Call) : (roll.after call).Kept (b.after call) := by
  cases call with
  | addListener l => exact h.addListener l
  | subscribe topic listener => exact h.subscribe topic listener
  | unsubscribe id => exact h.unsubscribe id
  | publish e => exact h.publish e

/-- The roll of a bus stays its roll over every series of calls. -/
theorem run (h : roll.Kept b) (calls : List Bus.Call) : (roll.run calls).Kept (b.run calls) := by
  induction calls generalizing roll b with
  | nil => exact h
  | cons call calls ih => exact ih (h.after call)

end Roll.Kept

/-! ## The bus refines the roll -/

/-- After any calls, an event is handed once to every member that it is for and to nobody else, in
the ascending order of their numbers, which the tape shows; the bus has counted the events that
every member's topic has covered since the subscription was made; and the index lists the members
on an object. -/
theorem Bus.publishes_by_roll (calls : List Bus.Call) :
    let b := ({} : Bus).run calls
    let roll := ({} : Roll).run calls
    (roll.members.Pairwise fun m m' => m.id.val < m'.id.val) ∧
      (b.subscriptions.entries = roll.members.map fun m => (m.id, m.subscription)) ∧
      (∀ e, b.publish e = (roll.addressees e).foldl (Bus.hand e) b ∧
        (b.publish e).tape = b.tape ++ (roll.addressees e).filterMap fun m =>
          (b.mark? m.listener).map fun mark => (mark, e)) ∧
      ∀ ref, b.subscriptionsFor ref = (roll.listeningTo ref).map Member.id := by
  have h := Roll.Kept.start.run calls
  refine ⟨h.ascending, h.entries, fun e => ⟨h.publish_eq e, ?_⟩, h.index⟩
  rw [h.publish_eq e, Bus.handAll_tape]

end KeyedSchema
