import KeyedSchema.Roster
import Mathlib.Data.List.Nodup

/-!
# Roster — reading a roster through its keys

The scans over the entries of a roster (`anyEntry`, `keysWhere`) agree with reading by key as long
as no key occurs twice, which every operation keeps. `map` changes all values at once; comparing
two rosters after `map` says that they differ only in what the map forgets.
-/

namespace KeyedSchema

namespace Roster

variable {κ α β : Type} [DecidableEq κ]

/-! ## Keys -/

theorem contains_iff (m : Roster κ α) (k : κ) :
    m.contains k = true ↔ ∃ a, m.get? k = some a := by
  simp [contains, Option.isSome_iff_exists]

theorem contains_eq_false_iff (m : Roster κ α) (k : κ) :
    m.contains k = false ↔ m.get? k = none := by
  simp [contains]

theorem contains_of_get? {m : Roster κ α} {k : κ} {a : α} (h : m.get? k = some a) :
    m.contains k = true := (m.contains_iff k).mpr ⟨a, h⟩

@[simp] theorem contains_modify (m : Roster κ α) (k k' : κ) (f : α → α) :
    (m.modify k f).contains k' = m.contains k' := by
  by_cases h : k' = k <;> simp [contains, h]

@[simp] theorem contains_insert (m : Roster κ α) (k k' : κ) (a : α) :
    (m.insert k a).contains k' = (decide (k' = k) || m.contains k') := by
  by_cases h : k' = k <;> simp [contains, h]

@[simp] theorem contains_erase (m : Roster κ α) (k k' : κ) :
    (m.erase k).contains k' = (!decide (k' = k) && m.contains k') := by
  by_cases h : k' = k <;> simp [contains, h]

theorem contains_of_insert {m : Roster κ α} {k k' : κ} {a : α}
    (h : (m.insert k a).contains k' = true) : m.contains k' = true ∨ k' = k := by
  simp only [contains_insert, Bool.or_eq_true, decide_eq_true_eq] at h
  exact h.symm

theorem contains_of_erase {m : Roster κ α} {k k' : κ} (h : (m.erase k).contains k' = true) :
    m.contains k' = true := by
  simp only [contains_erase, Bool.and_eq_true] at h
  exact h.2

theorem nodup_keys_modify {m : Roster κ α} (h : m.keys.Nodup) (k : κ) (f : α → α) :
    (m.modify k f).keys.Nodup := by
  rwa [keys_modify]

theorem nodup_keys_erase {m : Roster κ α} (h : m.keys.Nodup) (k : κ) :
    (m.erase k).keys.Nodup := by
  rw [keys_erase]
  exact h.filter _

theorem nodup_keys_insert {m : Roster κ α} (h : m.keys.Nodup) (k : κ) (a : α) :
    (m.insert k a).keys.Nodup := by
  rw [keys_insert]
  split
  · exact h
  · rename_i hk
    rw [← List.concat_eq_append]
    exact h.concat fun hmem => hk ((m.mem_keys_iff k).mp hmem)

/-- Erasing a key that is there leaves one entry less at least. -/
theorem size_erase_lt {m : Roster κ α} {k : κ} (h : m.contains k = true) :
    (m.erase k).size < m.size := by
  have hk : k ∈ m.keys := (m.mem_keys_iff k).mpr h
  obtain ⟨e, he, rfl⟩ := List.mem_map.mp hk
  exact List.length_filter_lt_length_iff_exists.mpr ⟨e, he, by simp⟩

/-- What is read off a value, and `f` does not change, reads the same everywhere after `f`. -/
theorem read_modify (m : Roster κ α) (k k' : κ) {f : α → α} (g : Option α → β)
    (hg : ∀ a, g (some (f a)) = g (some a)) : g ((m.modify k f).get? k') = g (m.get? k') := by
  rw [get?_modify]
  split
  · cases m.get? k' with
    | none => rfl
    | some a => exact hg a
  · rfl

/-- Without a value there is nothing to change. -/
theorem modify_of_not_contains {m : Roster κ α} {k : κ} (h : m.contains k = false) (f : α → α) :
    m.modify k f = m := by
  obtain ⟨entries⟩ := m
  unfold modify
  congr 1
  rw [contains_eq_false_iff] at h
  change find k entries = none at h
  induction entries with
  | nil => rfl
  | cons e rest ih =>
      obtain ⟨k', a⟩ := e
      by_cases hk : k' = k
      · simp [find, hk] at h
      · have hrest : change k f rest = rest := ih (by simpa [find, hk] using h)
        simp [change, hk, hrest]

theorem modify_modify (m : Roster κ α) (k : κ) (f g : α → α) :
    (m.modify k f).modify k g = m.modify k (g ∘ f) := by
  unfold modify
  congr 1
  induction m.entries with
  | nil => rfl
  | cons e rest ih =>
      by_cases hk : e.1 = k <;> simp [change, hk, ih]

/-- What happens to a value right before it is erased does not matter. -/
theorem erase_modify (m : Roster κ α) (k : κ) (f : α → α) : (m.modify k f).erase k = m.erase k := by
  unfold modify erase
  congr 1
  induction m.entries with
  | nil => rfl
  | cons e rest ih =>
      by_cases hk : e.1 = k
      · simpa [change, hk] using ih
      · simpa [change, hk] using ih

omit [DecidableEq κ] in
theorem size_eq_length_keys (m : Roster κ α) : m.size = m.keys.length := by
  simp [size, keys]

/-! ## Entries -/

theorem find_eq_some_iff (k : κ) (a : α) (es : List (κ × α)) (h : (es.map Prod.fst).Nodup) :
    find k es = some a ↔ (k, a) ∈ es := by
  induction es with
  | nil => simp [find]
  | cons e rest ih =>
      obtain ⟨k₀, a₀⟩ := e
      obtain ⟨hk₀, hrest⟩ := List.nodup_cons.mp h
      by_cases hk : k₀ = k
      · subst hk
        have hn : (k₀, a) ∉ rest := fun hm => hk₀ (List.mem_map.mpr ⟨_, hm, rfl⟩)
        simp [find, hn, eq_comm]
      · simp [find, hk, ih hrest, Ne.symm hk]

/-- Reading by key finds the entry with that key. -/
theorem get?_eq_some_iff {m : Roster κ α} (h : m.keys.Nodup) (k : κ) (a : α) :
    m.get? k = some a ↔ (k, a) ∈ m.entries :=
  find_eq_some_iff k a m.entries h

theorem anyEntry_iff {m : Roster κ α} (h : m.keys.Nodup) (p : κ → α → Bool) :
    m.anyEntry p = true ↔ ∃ k a, m.get? k = some a ∧ p k a = true := by
  simp [anyEntry, get?_eq_some_iff h]

theorem mem_keysWhere {m : Roster κ α} (h : m.keys.Nodup) (p : κ → α → Bool) (k : κ) :
    k ∈ m.keysWhere p ↔ ∃ a, m.get? k = some a ∧ p k a = true := by
  simp [keysWhere, get?_eq_some_iff h]

theorem indexOf?_of_contains {m : Roster κ α} {k : κ} (h : m.contains k = true) :
    ∃ i, m.indexOf? k = some i := by
  have hk : k ∈ m.keys := (m.mem_keys_iff k).mpr h
  exact Option.isSome_iff_exists.mp (List.isSome_idxOf?.mpr hk)

/-- Two rosters with the same keys in the same order are equal if they read the same. -/
theorem eq_of_get? {m m' : Roster κ α} (hnodup : m.keys.Nodup) (hkeys : m'.keys = m.keys)
    (h : ∀ k, m'.get? k = m.get? k) : m' = m := by
  have hread : ∀ {m : Roster κ α}, m.keys.Nodup →
      m.entries.map some = m.keys.map fun k => (m.get? k).map fun a => (k, a) := by
    intro m hnodup
    rw [keys, List.map_map]
    refine List.map_congr_left fun e he => ?_
    simp [(get?_eq_some_iff hnodup e.1 e.2).mpr he]
  have hentries : m'.entries.map some = m.entries.map some := by
    rw [hread hnodup, hread (hkeys ▸ hnodup), hkeys]
    exact List.map_congr_left fun k _ => by rw [h]
  cases m
  cases m'
  exact congrArg Roster.mk (List.map_injective_iff.mpr (fun _ _ h => Option.some.inj h) hentries)

/-! ## Changing all values -/

/-- The roster with `f` applied to every value. -/
def map (f : α → β) (m : Roster κ α) : Roster κ β := ⟨m.entries.map fun e => (e.1, f e.2)⟩

@[simp] theorem get?_map (f : α → β) (m : Roster κ α) (k : κ) :
    (m.map f).get? k = (m.get? k).map f := by
  unfold map get?
  induction m.entries with
  | nil => rfl
  | cons e rest ih =>
      obtain ⟨k₀, a⟩ := e
      by_cases h : k₀ = k <;> simp [find, h, ih]

omit [DecidableEq κ] in
@[simp] theorem keys_map (f : α → β) (m : Roster κ α) : (m.map f).keys = m.keys := by
  simp [keys, map]

/-- A change that `f` does not see leaves the mapped roster as it was. -/
theorem map_modify (f : α → β) (m : Roster κ α) (k : κ) (g : α → α) (h : ∀ a, f (g a) = f a) :
    (m.modify k g).map f = m.map f := by
  unfold map modify
  congr 1
  induction m.entries with
  | nil => rfl
  | cons e rest ih =>
      by_cases hk : e.1 = k <;> simp [change, hk, h, ih]

end Roster

end KeyedSchema
