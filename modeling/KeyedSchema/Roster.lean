/-!
# Roster — finite maps that remember the order of insertion

A `Roster` lists its entries from the oldest to the newest. Replacing the value of a key keeps the
entry's place, erasing a key closes the gap, and a key that comes back goes to the end.

The view is `get?`; each operation has one equation through it:

- `get?_insert` : a key reads back the value it was given, the other keys are left alone
- `get?_modify` : the value of one key goes through a function
- `get?_erase`  : an erased key reads nothing
-/

namespace KeyedSchema

/-- An insertion-ordered map from keys to values. -/
structure Roster (κ α : Type) where
  entries : List (κ × α)
  deriving DecidableEq, Repr

namespace Roster

variable {κ α : Type}

/-! ## The order of the entries -/

def empty : Roster κ α := ⟨[]⟩

def keys (m : Roster κ α) : List κ := m.entries.map Prod.fst

def values (m : Roster κ α) : List α := m.entries.map Prod.snd

def size (m : Roster κ α) : Nat := m.entries.length

/-- The first key, in insertion order, whose entry satisfies `p`. -/
def findKey? (m : Roster κ α) (p : κ → α → Bool) : Option κ :=
  (m.entries.find? fun (k, a) => p k a).map Prod.fst

/-- The keys, in insertion order, whose entries satisfy `p`. -/
def keysWhere (m : Roster κ α) (p : κ → α → Bool) : List κ :=
  (m.entries.filter fun (k, a) => p k a).map Prod.fst

/-- Whether some entry satisfies `p`. -/
def anyEntry (m : Roster κ α) (p : κ → α → Bool) : Bool :=
  m.entries.any fun (k, a) => p k a

/-! ## Reading and writing by key -/

variable [DecidableEq κ]

/-- The value of the first entry of a list that has the key `k`. -/
def find (k : κ) : List (κ × α) → Option α
  | [] => none
  | (k', a) :: rest => if k' = k then some a else find k rest

/-- Replace the value of every entry that has the key `k`. -/
def change (k : κ) (f : α → α) : List (κ × α) → List (κ × α)
  | [] => []
  | (k', a) :: rest => (k', if k' = k then f a else a) :: change k f rest

def get? (m : Roster κ α) (k : κ) : Option α := find k m.entries

def contains (m : Roster κ α) (k : κ) : Bool := (m.get? k).isSome

/-- The place of a key, counted from the oldest entry. -/
def indexOf? (m : Roster κ α) (k : κ) : Option Nat := m.keys.idxOf? k

/-- Apply `f` to the value of `k`; nothing happens without one. -/
def modify (m : Roster κ α) (k : κ) (f : α → α) : Roster κ α := ⟨change k f m.entries⟩

/-- Give `k` the value `a`: in its place if it has one, at the end otherwise. -/
def insert (m : Roster κ α) (k : κ) (a : α) : Roster κ α :=
  if m.contains k then m.modify k (fun _ => a) else ⟨m.entries ++ [(k, a)]⟩

def erase (m : Roster κ α) (k : κ) : Roster κ α := ⟨m.entries.filter fun e => e.1 ≠ k⟩

/-! ## One equation per operation -/

theorem find_change (k k' : κ) (f : α → α) (es : List (κ × α)) :
    find k' (change k f es) = if k' = k then (find k' es).map f else find k' es := by
  induction es with
  | nil => simp [find, change]
  | cons e rest ih =>
      obtain ⟨k₀, a⟩ := e
      by_cases h : k₀ = k'
      · subst h
        by_cases hk : k₀ = k <;> simp [find, change, hk]
      · simp [find, change, h, ih]

theorem find_append (k : κ) (es fs : List (κ × α)) :
    find k (es ++ fs) = (find k es).or (find k fs) := by
  induction es with
  | nil => simp [find]
  | cons e rest ih =>
      obtain ⟨k₀, a⟩ := e
      by_cases h : k₀ = k <;> simp [find, h, ih]

theorem find_filter_ne (k k' : κ) (es : List (κ × α)) :
    find k' (es.filter fun e => e.1 ≠ k) = if k' = k then none else find k' es := by
  induction es with
  | nil => simp [find]
  | cons e rest ih =>
      obtain ⟨k₀, a⟩ := e
      by_cases hk : k₀ = k
      · subst hk
        by_cases h : k' = k₀
        · subst h
          simpa [find] using ih
        · simpa [find, h, Ne.symm h] using ih
      · by_cases h : k₀ = k'
        · subst h
          simp [find, hk]
        · simpa [find, hk, h] using ih

@[simp] theorem get?_empty (k : κ) : (empty : Roster κ α).get? k = none := rfl

@[simp] theorem get?_modify (m : Roster κ α) (k k' : κ) (f : α → α) :
    (m.modify k f).get? k' = if k' = k then (m.get? k').map f else m.get? k' :=
  find_change k k' f m.entries

@[simp] theorem get?_insert (m : Roster κ α) (k k' : κ) (a : α) :
    (m.insert k a).get? k' = if k' = k then some a else m.get? k' := by
  unfold insert
  by_cases h : m.contains k
  · obtain ⟨b, hb⟩ := Option.isSome_iff_exists.mp h
    rw [if_pos h, get?_modify]
    by_cases hk : k' = k
    · subst hk
      simp [hb]
    · simp [hk]
  · have hn : find k m.entries = none := by simpa [contains, get?] using h
    rw [if_neg h]
    by_cases hk : k' = k
    · subst hk
      simp [get?, find_append, hn, find]
    · simp [get?, find_append, find, hk, Ne.symm hk]

@[simp] theorem get?_erase (m : Roster κ α) (k k' : κ) :
    (m.erase k).get? k' = if k' = k then none else m.get? k' :=
  find_filter_ne k k' m.entries

theorem keys_modify (m : Roster κ α) (k : κ) (f : α → α) : (m.modify k f).keys = m.keys := by
  unfold keys modify
  induction m.entries with
  | nil => rfl
  | cons e rest ih => simpa [change] using ih

theorem keys_erase (m : Roster κ α) (k : κ) :
    (m.erase k).keys = m.keys.filter fun k' => k' ≠ k := by
  simp [keys, erase, List.filter_map, Function.comp_def]

theorem keys_insert (m : Roster κ α) (k : κ) (a : α) :
    (m.insert k a).keys = if m.contains k then m.keys else m.keys ++ [k] := by
  unfold insert
  split
  · exact keys_modify m k _
  · simp [keys]

theorem mem_keys_iff (m : Roster κ α) (k : κ) : k ∈ m.keys ↔ m.contains k = true := by
  unfold keys contains get?
  induction m.entries with
  | nil => simp [find]
  | cons e rest ih =>
      obtain ⟨k₀, a⟩ := e
      by_cases h : k₀ = k
      · simp [find, h]
      · simpa [find, h, Ne.symm h] using ih

end Roster

end KeyedSchema
