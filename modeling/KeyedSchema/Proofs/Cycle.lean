import KeyedSchema.Proofs.Integrity
import KeyedSchema.Schema.Cycle
import Mathlib.Data.Finset.Card
import Mathlib.Logic.Relation

/-!
# Cycle — the check for circles is exact

The live identifying relationships of a schema are the links of a graph on its tables, and a schema
is *acyclic* if no walk along them comes back to where it started. The check that is made before a
relationship becomes live or identifying explores the graph without that relationship; it answers
yes exactly if a walk leads from the child to the parent, so that the new link would close a circle.
-/

namespace KeyedSchema

namespace Schema

open Relation

variable {s s' s'' : Schema} {t u p ch : TableId} {r : RelationshipId}

/-! ## Walks -/

section

variable {α : Type} {next : α → List α} {x : α} {xs ys visited visited' visited'' : List α}

/-- What exploring from the places `xs` comes to: they are visited, and with every place that has
become visited those next to it are. -/
structure Explored (next : α → List α) (xs visited visited' : List α) : Prop where
  kept : ∀ u ∈ visited, u ∈ visited'
  seen : ∀ u ∈ xs, u ∈ visited'
  closed : ∀ u ∈ visited', u ∈ visited ∨ ∀ v ∈ next u, v ∈ visited'

namespace Explored

/-- Where everything is visited already, nothing is left to explore. -/
theorem of_visited (h : ∀ u ∈ xs, u ∈ visited) : Explored next xs visited visited :=
  ⟨fun _ hu => hu, h, fun _ hu => .inl hu⟩

theorem append (h : Explored next xs visited visited')
    (h' : Explored next ys visited' visited'') : Explored next (xs ++ ys) visited visited'' where
  kept u hu := h'.kept u (h.kept u hu)
  seen u hu := (List.mem_append.mp hu).elim (fun hu => h'.kept u (h.seen u hu)) (h'.seen u)
  closed u hu := by
    rcases h'.closed u hu with hu | hnext
    · exact (h.closed u hu).imp_right fun hnext v hv => h'.kept v (hnext v hv)
    · exact .inr hnext

/-- A place that is visited first can be left once everything next to it is explored. -/
theorem root (hvisited : ∀ u, u ∈ visited' ↔ u = x ∨ u ∈ visited)
    (h : Explored next (next x) visited' visited'') : Explored next [x] visited visited'' where
  kept u hu := h.kept u ((hvisited u).mpr (.inr hu))
  seen u hu := h.kept u ((hvisited u).mpr (.inl (List.mem_singleton.mp hu)))
  closed u hu := by
    rcases h.closed u hu with hu | hnext
    · rcases (hvisited u).mp hu with rfl | hu
      · exact .inr h.seen
      · exact .inl hu
    · exact .inr hnext

/-- Exploring from one place with nothing visited finds every place that a walk leads to. -/
theorem mem_of_walk (h : Explored next [x] [] visited) {y : α}
    (hwalk : ReflTransGen (fun a b => b ∈ next a) x y) : y ∈ visited := by
  induction hwalk with
  | refl => exact h.seen x (List.mem_singleton_self x)
  | tail _ hlink ih => exact (h.closed _ ih).resolve_left (List.not_mem_nil) _ hlink

end Explored

/-- Exploring a list of places one by one, if each of them is explored completely. -/
theorem explored_foldl {f : List α → α → List α}
    (hf : ∀ x ∈ xs, ∀ v, (∀ u ∈ visited, u ∈ v) → Explored next [x] v (f v x)) :
    Explored next xs visited (xs.foldl f visited) := by
  induction xs generalizing visited with
  | nil => exact .of_visited fun _ h => absurd h List.not_mem_nil
  | cons x xs ih =>
      have h := hf x (List.mem_cons_self ..) visited fun _ h => h
      exact h.append (ih fun x' hx' v hv =>
        hf x' (List.mem_cons_of_mem _ hx') v fun u hu => hv u (h.kept u hu))

end

section

variable {next : TableId → List TableId}

/-- A walk that may go deeper than there are tables left to visit explores completely. -/
theorem explored_explore {all : Finset TableId} (hall : ∀ t, ∀ u ∈ next t, t ∈ all ∧ u ∈ all)
    (depth : Nat) : ∀ (visited : List TableId) (t : TableId),
    (all \ visited.toFinset).card < depth →
      Explored next [t] visited (explore next depth visited t) := by
  -- the depth exceeds the number of tables that are still to be visited
  induction depth with
  | zero => exact fun visited t h => absurd h (Nat.not_lt_zero _)
  | succ depth ih =>
      intro visited t hdepth
      unfold explore
      split
      · rename_i ht
        exact .of_visited fun u hu => List.mem_singleton.mp hu ▸ ht
      · rename_i ht
        have hrest : Explored next (next t) (t :: visited)
            ((next t).foldl (fun visited u => explore next depth visited u) (t :: visited)) := by
          refine explored_foldl fun u hu v hv => ih v u ?_
          -- `t` is one table less to visit
          have hsub : all \ v.toFinset ⊂ all \ visited.toFinset := by
            refine Finset.ssubset_iff_of_subset (fun w hw => ?_) |>.mpr ⟨t, ?_, ?_⟩
            · simp only [Finset.mem_sdiff, List.mem_toFinset] at hw ⊢
              exact ⟨hw.1, fun hin => hw.2 (hv w (List.mem_cons_of_mem _ hin))⟩
            · simp only [Finset.mem_sdiff, List.mem_toFinset]
              exact ⟨(hall t u hu).1, ht⟩
            · simp only [Finset.mem_sdiff, List.mem_toFinset, not_and, not_not]
              exact fun _ => hv t (List.mem_cons_self ..)
          have := Finset.card_lt_card hsub
          omega
        exact hrest.root fun u => List.mem_cons

/-- Whatever is visited was visited before or is reached by a walk. -/
theorem reached_of_mem_explore (depth : Nat) : ∀ (visited : List TableId) (t : TableId),
    ∀ u ∈ explore next depth visited t, u ∈ visited ∨ ReflTransGen (fun a b => b ∈ next a) t u := by
  induction depth with
  | zero => exact fun visited t u hu => .inl hu
  | succ depth ih =>
      intro visited t u hu
      unfold explore at hu
      split at hu
      · exact .inl hu
      -- the tables that follow are explored one after the other
      · have hfold : ∀ (ts : List TableId), (∀ v ∈ ts, v ∈ next t) → ∀ visited',
            u ∈ ts.foldl (fun visited u => explore next depth visited u) visited' →
              u ∈ visited' ∨ ReflTransGen (fun a b => b ∈ next a) t u := by
          intro ts
          induction ts with
          | nil => exact fun _ _ hu => .inl hu
          | cons v ts ihts =>
              intro hts visited' hu
              rcases ihts (fun w hw => hts w (List.mem_cons_of_mem _ hw)) _ hu with hu | hu
              · exact (ih visited' v u hu).imp_right fun hwalk =>
                  .head (hts v (List.mem_cons_self ..)) hwalk
              · exact .inr hu
        rcases hfold _ (fun _ h => h) _ hu with hu | hu
        · rcases List.mem_cons.mp hu with rfl | hu
          · exact .inr .refl
          · exact .inl hu
        · exact .inr hu

end

/-! ## Links -/

/-- Whether a relationship is a live identifying one from `p` to `ch`. -/
structure Carries (r : RelationshipId) (p ch : TableId) (s : Schema) : Prop where
  isLive : s.isLive r = true
  isIdentifying : s.isIdentifying r = true
  parent : s.parent? r = some p
  child : s.child? r = some ch

/-- Whether a link leads from one table to another. -/
def Feeds (s : Schema) (p ch : TableId) : Prop := ∃ r, s.Carries r p ch

/-- Whether a link other than `r` leads from one table to another. -/
def FeedsBut (r : RelationshipId) (s : Schema) (p ch : TableId) : Prop :=
  ∃ r', r' ≠ r ∧ s.Carries r' p ch

theorem FeedsBut.feeds (h : s.FeedsBut r p ch) : s.Feeds p ch := by
  obtain ⟨r', -, h⟩ := h
  exact ⟨r', h⟩

theorem Sound.mem_identifyingChildren (hs : s.Sound) :
    u ∈ s.identifyingChildren r t ↔ s.FeedsBut r t u := by
  unfold Schema.identifyingChildren
  rw [List.mem_filterMap]
  constructor
  · rintro ⟨r', hr', h⟩
    split at h
    · rename_i hcond
      obtain ⟨rel, hrel, h⟩ := Option.bind_eq_some_iff.mp h
      split at h
      · rename_i hid
        exact ⟨r', hcond.1, hcond.2, by simp [Schema.isIdentifying, hrel, hid],
          hs.exported t r' hr', by simp [Schema.child?, hrel, h]⟩
      · simp at h
    · simp at h
  · rintro ⟨r', hne, h⟩
    have hr' := (mem_liveExportsOf.mp ((hs.mem_liveExportsOf_iff r' t).mpr ⟨h.isLive, h.parent⟩)).1
    refine ⟨r', hr', ?_⟩
    obtain ⟨rel, hrel, hch⟩ := Option.bind_eq_some_iff.mp h.child
    have hid : rel.identifying = true := by simpa [Schema.isIdentifying, hrel] using h.isIdentifying
    simp [hne, h.isLive, hrel, hid, hch]

/-- The tables that the check reaches are those that walks along the other links reach. -/
theorem Sound.mem_identifyingReach (hs : s.Sound) :
    u ∈ s.identifyingReach r t ↔ ReflTransGen (s.FeedsBut r) t u := by
  have hrel : (fun a b => b ∈ s.identifyingChildren r a) = s.FeedsBut r := by
    funext a b
    exact propext hs.mem_identifyingChildren
  rw [← hrel]
  constructor
  · intro hu
    exact (reached_of_mem_explore _ _ _ u hu).resolve_left (by simp)
  -- links join stored tables, so there is depth enough for all of them
  · have hall : ∀ t, ∀ u ∈ s.identifyingChildren r t,
        t ∈ s.tables.keys.toFinset ∧ u ∈ s.tables.keys.toFinset := by
      intro t u hu
      obtain ⟨r', -, h⟩ := hs.mem_identifyingChildren.mp hu
      simp only [List.mem_toFinset, Roster.mem_keys_iff]
      exact ⟨hs.parent_stored r' t h.parent, hs.child_stored r' u h.child⟩
    have hexplored := explored_explore hall (s.tables.size + 1) [] t (by
      have := s.tables.keys.toFinset_card_le
      rw [Roster.size_eq_length_keys]
      simp only [List.toFinset_nil, Finset.sdiff_empty]
      omega)
    exact hexplored.mem_of_walk

/-- The check answers yes exactly if the other links lead from the child to the parent. -/
theorem Sound.closesCycle_iff (hs : s.Sound) :
    s.closesCycle r p ch = true ↔ ReflTransGen (s.FeedsBut r) ch p := by
  unfold Schema.closesCycle
  rw [Bool.or_eq_true, decide_eq_true_eq, decide_eq_true_eq, hs.mem_identifyingReach]
  constructor
  · rintro (rfl | h)
    · exact .refl
    · exact h
  · exact .inr

/-! ## Acyclic schemas -/

/-- Whether no walk along the links comes back to where it started. -/
def Acyclic (s : Schema) : Prop := ∀ t, ¬ TransGen s.Feeds t t

/-- Whether every link of a schema is one of the schema before. -/
def Inherits (s s' : Schema) : Prop := ∀ r p ch, s'.Carries r p ch → s.Carries r p ch

namespace Inherits

@[refl] theorem refl (s : Schema) : Inherits s s := fun _ _ _ h => h

theorem trans (h : Inherits s s') (h' : Inherits s' s'') : Inherits s s'' :=
  fun r p ch hc => h r p ch (h' r p ch hc)

theorem feeds (h : Inherits s s') (hf : s'.Feeds p ch) : s.Feeds p ch := by
  obtain ⟨r, hc⟩ := hf
  exact ⟨r, h r p ch hc⟩

end Inherits

theorem SameFrame.inherits (h : SameFrame s s') : Inherits s s' := fun r _ _ hc =>
  ⟨(h.isLive r).symm.trans hc.isLive, (h.isIdentifying r).symm.trans hc.isIdentifying,
    (h.parent? r).symm.trans hc.parent, (h.child? r).symm.trans hc.child⟩

theorem SameFrame.feeds (h : SameFrame s s') : s'.Feeds = s.Feeds := by
  funext p ch
  exact propext ⟨h.inherits.feeds, h.symm.inherits.feeds⟩

theorem SameShape.inherits (h : SameShape s s') (hid : ∀ r, s'.isIdentifying r = s.isIdentifying r) :
    Inherits s s' := fun r _ _ hc =>
  ⟨(h.isLive r).symm.trans hc.isLive, (hid r).symm.trans hc.isIdentifying,
    (h.parent? r).symm.trans hc.parent, (h.child? r).symm.trans hc.child⟩

theorem Acyclic.inherits (ha : s.Acyclic) (h : Inherits s s') : s'.Acyclic := fun t hwalk =>
  ha t (TransGen.mono (fun _ _ => h.feeds) t t hwalk)

/-- A walk along the links, one of them new, goes along old links or passes the new one. -/
theorem walk_of_link {R R' : TableId → TableId → Prop}
    (hR : ∀ a b, R' a b → R a b ∨ (a = p ∧ b = ch)) {a b : TableId} (h : TransGen R' a b) :
    TransGen R a b ∨ (ReflTransGen R a p ∧ ReflTransGen R ch b) := by
  induction h with
  | single h =>
      rcases hR _ _ h with h | ⟨rfl, rfl⟩
      · exact .inl (.single h)
      · exact .inr ⟨.refl, .refl⟩
  | tail _ h ih =>
      rcases hR _ _ h with h | ⟨rfl, rfl⟩
      · exact ih.imp (fun hwalk => hwalk.tail h) fun hwalk => ⟨hwalk.1, hwalk.2.tail h⟩
      · rcases ih with hwalk | hwalk
        · exact .inr ⟨hwalk.to_reflTransGen, .refl⟩
        · exact .inr ⟨hwalk.1, .refl⟩

/-- A new link that passes the check keeps a schema acyclic. -/
theorem Acyclic.link (ha : s.Acyclic) (hs : s.Sound) (hcheck : s.closesCycle r p ch = false)
    (h : ∀ a b, s'.Feeds a b → s.FeedsBut r a b ∨ (a = p ∧ b = ch)) : s'.Acyclic := by
  intro t hwalk
  rcases walk_of_link h hwalk with hold | ⟨hp, hch⟩
  · exact ha t (TransGen.mono (fun _ _ => FeedsBut.feeds) t t hold)
  · rw [Bool.eq_false_iff, ne_eq, hs.closesCycle_iff] at hcheck
    exact hcheck (hch.trans hp)

/-- A schema without objects is acyclic. -/
theorem acyclic_ofConfig (config : Config) : (ofConfig config).Acyclic := by
  intro t hwalk
  obtain ⟨u, ⟨r, hlink⟩, -⟩ := TransGen.head'_iff.mp hwalk
  have := contains_of_parent? hlink.parent
  simp [ofConfig, Roster.empty, Roster.contains, Roster.get?, Roster.find] at this

end Schema

end KeyedSchema
