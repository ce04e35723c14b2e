import KeyedSchema.Proofs.Cycle
import KeyedSchema.Proofs.Step
import Mathlib.Algebra.Order.BigOperators.Group.Finset

/-!
# Searching — the check for circles as a search that ends

The check for circles can be made round by round: the tables that are still to be looked at are kept
in a stack, and each round takes one of them. It is the goal, or it was visited before and is passed
over, or the tables one link away from it are put onto the stack.

- `Searches next goal visited pending n answer` : from there the search takes `n` rounds;
- `Frontier` : what every round keeps. A walk from the start leads to all that is pending, and what
  is next to a visited place is visited or pending.

Each relationship is exported by one table at most and followed at most once, so a search ends after
no more rounds than there are relationships and one for the start. Its answer is that of
`closesCycle`.
-/

namespace KeyedSchema

namespace Schema

open Relation

variable {s : Schema} {t : TableId}

/-! ## Rounds of a search -/

section

variable {α : Type} {next : α → List α} {start goal x : α} {visited pending : List α}

/-- Whether a search for `goal`, with the places in `pending` to be looked at in turn, comes to its
answer after the given number of rounds. -/
inductive Searches (next : α → List α) (goal : α) : List α → List α → Nat → Bool → Prop
  | exhausted {visited : List α} : Searches next goal visited [] 0 false
  | found {visited pending : List α} : Searches next goal visited (goal :: pending) 1 true
  /-- A place that was visited before is passed over. -/
  | passed {visited pending : List α} {x : α} {n : Nat} {answer : Bool} (hne : x ≠ goal)
      (h : x ∈ visited) : Searches next goal visited pending n answer →
      Searches next goal visited (x :: pending) (n + 1) answer
  /-- What is next to a new place goes onto the stack, one after the other. -/
  | entered {visited pending : List α} {x : α} {n : Nat} {answer : Bool} (hne : x ≠ goal)
      (h : x ∉ visited) : Searches next goal (x :: visited) ((next x).reverse ++ pending) n answer →
      Searches next goal visited (x :: pending) (n + 1) answer

/-- What holds of a search in front of every round. -/
structure Frontier (next : α → List α) (start goal : α) (visited pending : List α) : Prop where
  reached : ∀ u ∈ pending, ReflTransGen (fun a b => b ∈ next a) start u
  started : start ∈ visited ∨ start ∈ pending
  closed : ∀ u ∈ visited, ∀ v ∈ next u, v ∈ visited ∨ v ∈ pending
  missed : goal ∉ visited

namespace Frontier

theorem initial (next : α → List α) (start goal : α) : Frontier next start goal [] [start] where
  reached _ hu := List.mem_singleton.mp hu ▸ .refl
  started := .inr (List.mem_singleton_self start)
  closed _ hu := absurd hu List.not_mem_nil
  missed := List.not_mem_nil

theorem passed (h : Frontier next start goal visited (x :: pending)) (hx : x ∈ visited) :
    Frontier next start goal visited pending := by
  -- what was pending only as `x` is visited
  have hkept : ∀ {u}, u ∈ visited ∨ u ∈ x :: pending → u ∈ visited ∨ u ∈ pending := by
    rintro u (hu | hu)
    · exact .inl hu
    · rcases List.mem_cons.mp hu with rfl | hu
      · exact .inl hx
      · exact .inr hu
  exact ⟨fun u hu => h.reached u (List.mem_cons_of_mem _ hu), hkept h.started,
    fun u hu v hv => hkept (h.closed u hu v hv), h.missed⟩

theorem entered (h : Frontier next start goal visited (x :: pending)) (hne : x ≠ goal) :
    Frontier next start goal (x :: visited) ((next x).reverse ++ pending) := by
  have hkept : ∀ {u}, u ∈ visited ∨ u ∈ x :: pending →
      u ∈ x :: visited ∨ u ∈ (next x).reverse ++ pending := by
    rintro u (hu | hu)
    · exact .inl (List.mem_cons_of_mem _ hu)
    · rcases List.mem_cons.mp hu with rfl | hu
      · exact .inl (List.mem_cons_self ..)
      · exact .inr (List.mem_append_right _ hu)
  refine ⟨fun u hu => ?_, hkept h.started, fun u hu v hv => ?_, fun hgoal => ?_⟩
  · rcases List.mem_append.mp hu with hu | hu
    · exact (h.reached x (List.mem_cons_self ..)).tail (List.mem_reverse.mp hu)
    · exact h.reached u (List.mem_cons_of_mem _ hu)
  · rcases List.mem_cons.mp hu with rfl | hu
    · exact .inr (List.mem_append_left _ (List.mem_reverse.mpr hv))
    · exact hkept (h.closed u hu v hv)
  · rcases List.mem_cons.mp hgoal with heq | hgoal
    · exact hne heq.symm
    · exact h.missed hgoal

/-- With nothing pending, all is explored. -/
theorem explored (h : Frontier next start goal visited []) :
    Explored next [start] [] visited where
  kept _ hu := absurd hu List.not_mem_nil
  seen _ hu := List.mem_singleton.mp hu ▸ h.started.resolve_right List.not_mem_nil
  closed u hu := .inr fun v hv => (h.closed u hu v hv).resolve_right List.not_mem_nil

end Frontier

/-- A search finds its goal exactly if a walk leads there. -/
theorem Searches.answer_iff {n : Nat} {answer : Bool}
    (hsearch : Searches next goal visited pending n answer)
    (h : Frontier next start goal visited pending) :
    answer = true ↔ ReflTransGen (fun a b => b ∈ next a) start goal := by
  induction hsearch with
  | exhausted =>
      refine ⟨fun hfalse => absurd hfalse Bool.false_ne_true, fun hwalk => ?_⟩
      exact absurd (h.explored.mem_of_walk hwalk) h.missed
  | found => exact ⟨fun _ => h.reached _ (List.mem_cons_self ..), fun _ => rfl⟩
  | passed _ hx _ ih => exact ih (h.passed hx)
  | entered hne _ _ ih => exact ih (h.entered hne)

/-- A search in a finite graph ends: each round takes a place from the stack, and what is next to a
place is put there only once. -/
theorem exists_searches [DecidableEq α] (next : α → List α) (all : Finset α)
    (hall : ∀ x, x ∉ all → next x = []) (goal : α) (bound : Nat) : ∀ visited pending : List α,
    pending.length + ∑ x ∈ all \ visited.toFinset, (next x).length = bound →
      ∃ n ≤ bound, ∃ answer, Searches next goal visited pending n answer := by
  induction bound with
  | zero =>
      intro visited pending hbound
      obtain rfl : pending = [] := List.eq_nil_of_length_eq_zero (by omega)
      exact ⟨0, Nat.le_refl _, false, .exhausted⟩
  | succ bound ih =>
      intro visited pending hbound
      cases pending with
      | nil => exact ⟨0, Nat.zero_le _, false, .exhausted⟩
      | cons x pending =>
          rw [List.length_cons] at hbound
          by_cases hgoal : x = goal
          · subst hgoal
            exact ⟨1, by omega, true, .found⟩
          by_cases hx : x ∈ visited
          · obtain ⟨n, hn, answer, h⟩ := ih visited pending (by omega)
            exact ⟨n + 1, by omega, answer, .passed hgoal hx h⟩
          -- what is next to `x` moves from the places to be visited to the stack
          · have hmoved : (next x).length + ∑ y ∈ all \ (x :: visited).toFinset, (next y).length =
                ∑ y ∈ all \ visited.toFinset, (next y).length := by
              rw [List.toFinset_cons, Finset.sdiff_insert]
              by_cases hin : x ∈ all
              · exact Finset.add_sum_erase _ (fun y => (next y).length)
                  (Finset.mem_sdiff.mpr ⟨hin, by simpa using hx⟩)
              · rw [hall x hin, Finset.erase_eq_of_notMem fun h => hin (Finset.mem_sdiff.mp h).1]
                simp
            obtain ⟨n, hn, answer, h⟩ := ih (x :: visited) ((next x).reverse ++ pending) (by
              rw [List.length_append, List.length_reverse]
              omega)
            exact ⟨n + 1, by omega, answer, .entered hgoal hx h⟩

end

/-! ## Links to follow -/

/-- No relationship is exported twice, so there are no more links than relationships. -/
theorem Sound.sum_identifyingChildren_le (hs : s.Sound) (r : RelationshipId) :
    ∑ t ∈ s.tables.keys.toFinset, (s.identifyingChildren r t).length ≤ s.relationships.size := by
  have hnodup : (s.tables.keys.flatMap s.exportsOf).Nodup := by
    refine List.nodup_flatMap.mpr ⟨fun t _ => hs.exportsOf_nodup t, ?_⟩
    refine hs.tables_nodup.imp fun {t u} hne r' ht hu => hne ?_
    exact Option.some.inj ((hs.exported t r' ht).symm.trans (hs.exported u r' hu))
  have hsub : s.tables.keys.flatMap s.exportsOf ⊆ s.relationships.keys := by
    intro r' hr'
    obtain ⟨t, -, ht⟩ := List.mem_flatMap.mp hr'
    exact (Roster.mem_keys_iff _ _).mpr (contains_of_parent? (hs.exported t r' ht))
  calc ∑ t ∈ s.tables.keys.toFinset, (s.identifyingChildren r t).length
      ≤ ∑ t ∈ s.tables.keys.toFinset, (s.exportsOf t).length :=
        Finset.sum_le_sum fun t _ => List.length_filterMap_le ..
    _ = (s.tables.keys.flatMap s.exportsOf).length := by
        rw [List.sum_toFinset _ hs.tables_nodup, List.length_flatMap]
    _ ≤ s.relationships.size := by
        rw [Roster.size_eq_length_keys]
        exact (hnodup.subperm hsub).length_le

theorem identifyingChildren_of_absent (r : RelationshipId) (h : t ∉ s.tables.keys) :
    s.identifyingChildren r t = [] := by
  have hnone : s.tables.get? t = none := by
    rw [← Roster.contains_eq_false_iff, Bool.eq_false_iff]
    exact fun hin => h ((Roster.mem_keys_iff _ _).mpr hin)
  simp [identifyingChildren, exportsOf, hnone]

end Schema

/-- In a schema that can be reached, the search for a circle ends after at most one round for each
relationship and one more, with the answer of the check: yes exactly if the link would lead from a
table to itself, or live identifying relationships other than the ignored one lead back from the
child to the parent. The tables need not be stored. -/
theorem Schema.Reachable.closesCycle_exact {s : Schema} (h : s.Reachable) (ignore : RelationshipId)
    (p ch : TableId) :
    (∃ rounds ≤ s.relationships.size + 1,
      Searches (s.identifyingChildren ignore) p [] [ch] rounds (s.closesCycle ignore p ch)) ∧
    (s.closesCycle ignore p ch = true ↔ p = ch ∨ Relation.TransGen (s.FeedsBut ignore) ch p) := by
  have hs := h.sound
  have hlinks : (fun a b => b ∈ s.identifyingChildren ignore a) = s.FeedsBut ignore := by
    funext a b
    exact propext hs.mem_identifyingChildren
  constructor
  · obtain ⟨rounds, hrounds, answer, hsearch⟩ := exists_searches
      (s.identifyingChildren ignore) s.tables.keys.toFinset
      (fun t ht => identifyingChildren_of_absent ignore (by simpa using ht)) p _ [] [ch] rfl
    have hiff : answer = true ↔ s.closesCycle ignore p ch = true := by
      rw [hsearch.answer_iff (.initial _ ch p), hlinks, hs.closesCycle_iff]
    refine ⟨rounds, ?_, Bool.eq_iff_iff.mpr hiff ▸ hsearch⟩
    have := hs.sum_identifyingChildren_le ignore
    simp only [List.toFinset_nil, Finset.sdiff_empty, List.length_singleton] at hrounds
    omega
  · rw [hs.closesCycle_iff, Relation.reflTransGen_iff_eq_or_transGen]

/-- Identifying relationships lead from the first table to the fourth by the second one and by the
third one, and a relationship that is not identifying leads on to the fifth one. -/
def rejoiningMoves : List Move :=
  [.edit (.addTable { name := "a" }), .edit (.addTable { name := "b" }),
    .edit (.addTable { name := "c" }), .edit (.addTable { name := "d" }),
    .edit (.addTable { name := "e" }),
    .edit (.createRelationship { name := "ab", identifying := true }),
    .edit (.createRelationship { name := "ac", identifying := true }),
    .edit (.createRelationship { name := "bd", identifying := true }),
    .edit (.createRelationship { name := "cd", identifying := true }),
    .edit (.createRelationship { name := "de" }),
    .edit (.attachRelationship ⟨1⟩ ⟨1⟩ ⟨2⟩ false), .edit (.attachRelationship ⟨2⟩ ⟨1⟩ ⟨3⟩ false),
    .edit (.attachRelationship ⟨3⟩ ⟨2⟩ ⟨4⟩ false), .edit (.attachRelationship ⟨4⟩ ⟨3⟩ ⟨4⟩ false),
    .edit (.attachRelationship ⟨5⟩ ⟨4⟩ ⟨5⟩ false)]

/-- Without the first relationship the second one still leads to the fourth table. The fifth one is
not reached, and the search that finds this out ends, though it comes to the fourth table twice. A
table that is not stored closes a circle with itself. -/
theorem Schema.closesCycle_exact_rejoining : ∃ s : Schema, s.Reachable ∧
    s.closesCycle ⟨1⟩ ⟨4⟩ ⟨1⟩ = true ∧ Relation.TransGen (s.FeedsBut ⟨1⟩) ⟨1⟩ ⟨4⟩ ∧
    s.closesCycle ⟨6⟩ ⟨5⟩ ⟨1⟩ = false ∧ ¬ Relation.TransGen (s.FeedsBut ⟨6⟩) ⟨1⟩ ⟨5⟩ ∧
    (∃ rounds ≤ 6, Searches (s.identifyingChildren ⟨6⟩) ⟨5⟩ [] [⟨1⟩] rounds false) ∧
    s.tables.contains ⟨7⟩ = false ∧ s.closesCycle ⟨6⟩ ⟨7⟩ ⟨7⟩ = true := by
  have hreach : Schema.Reachable ((Moment.start {}).run rejoiningMoves).schema :=
    ⟨{}, rejoiningMoves, rfl⟩
  have hclosed : ((Moment.start {}).run rejoiningMoves).schema.closesCycle ⟨1⟩ ⟨4⟩ ⟨1⟩ = true := by
    decide +kernel
  have hopen : ((Moment.start {}).run rejoiningMoves).schema.closesCycle ⟨6⟩ ⟨5⟩ ⟨1⟩ = false := by
    decide +kernel
  have hsize : ((Moment.start {}).run rejoiningMoves).schema.relationships.size + 1 = 6 := by
    decide +kernel
  have hwalk := ((hreach.closesCycle_exact ⟨1⟩ ⟨4⟩ ⟨1⟩).2.mp hclosed).resolve_left (by decide)
  obtain ⟨hsearch, hiff⟩ := hreach.closesCycle_exact ⟨6⟩ ⟨5⟩ ⟨1⟩
  rw [hsize, hopen] at hsearch
  refine ⟨_, hreach, hclosed, hwalk, hopen, fun hwalk => ?_, hsearch, by decide +kernel,
    (hreach.closesCycle_exact ⟨6⟩ ⟨7⟩ ⟨7⟩).2.mpr (.inl rfl)⟩
  exact Bool.false_ne_true (hopen.symm.trans (hiff.mpr (.inr hwalk)))

end KeyedSchema
