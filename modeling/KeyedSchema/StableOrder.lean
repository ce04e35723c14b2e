/-!
# StableOrder — sorting by a number, and dropping repetitions

`sortOn key` puts a list in ascending order of `key`; elements with the same key keep the order
they had. `distinct` keeps the first occurrence of each element.

- `sortOn_perm`   : sorting only rearranges
- `sortOn_sorted` : the keys ascend
- `sortOn_filter` : the elements of one key keep their order
- `sortOn_stable` : the same, of any order that the list is in
- `eq_of_sorted`  : an ascending list is determined by the order of the elements of each key
-/

namespace KeyedSchema

variable {α : Type}

/-! ## Sorting -/

/-- Put `x` in front of the first element whose key is not smaller. -/
def insertOn (key : α → Nat) (x : α) : List α → List α
  | [] => [x]
  | y :: ys => if key x ≤ key y then x :: y :: ys else y :: insertOn key x ys

/-- The list in ascending order of `key`, ties in their previous order. -/
def sortOn (key : α → Nat) : List α → List α
  | [] => []
  | x :: xs => insertOn key x (sortOn key xs)

theorem insertOn_perm (key : α → Nat) (x : α) (ys : List α) :
    (insertOn key x ys).Perm (x :: ys) := by
  induction ys with
  | nil => exact List.Perm.refl _
  | cons y ys ih =>
      unfold insertOn
      split
      · exact List.Perm.refl _
      · exact (ih.cons y).trans (List.Perm.swap x y ys)

theorem sortOn_perm (key : α → Nat) (xs : List α) : (sortOn key xs).Perm xs := by
  induction xs with
  | nil => exact List.Perm.refl _
  | cons x xs ih => exact (insertOn_perm key x _).trans (ih.cons x)

@[simp] theorem mem_sortOn (key : α → Nat) (xs : List α) (a : α) : a ∈ sortOn key xs ↔ a ∈ xs :=
  (sortOn_perm key xs).mem_iff

theorem insertOn_sorted (key : α → Nat) (x : α) (ys : List α)
    (h : ys.Pairwise fun a b => key a ≤ key b) :
    (insertOn key x ys).Pairwise fun a b => key a ≤ key b := by
  induction ys with
  | nil => simp [insertOn]
  | cons y ys ih =>
      obtain ⟨hy, hys⟩ := List.pairwise_cons.mp h
      unfold insertOn
      split
      · rename_i hxy
        refine List.pairwise_cons.mpr ⟨?_, h⟩
        intro z hz
        rcases List.mem_cons.mp hz with rfl | hz
        · exact hxy
        · exact Nat.le_trans hxy (hy z hz)
      · rename_i hxy
        refine List.pairwise_cons.mpr ⟨?_, ih hys⟩
        intro z hz
        rcases List.mem_cons.mp ((insertOn_perm key x ys).mem_iff.mp hz) with rfl | hz
        · omega
        · exact hy z hz

theorem sortOn_sorted (key : α → Nat) (xs : List α) :
    (sortOn key xs).Pairwise fun a b => key a ≤ key b := by
  induction xs with
  | nil => exact List.Pairwise.nil
  | cons x xs ih => exact insertOn_sorted key x _ ih

theorem insertOn_filter (key : α → Nat) (n : Nat) (x : α) (ys : List α) :
    (insertOn key x ys).filter (fun a => key a = n) = (x :: ys).filter fun a => key a = n := by
  induction ys with
  | nil => rfl
  | cons y ys ih =>
      unfold insertOn
      split
      · rfl
      · rename_i hxy
        by_cases hx : key x = n <;> by_cases hy : key y = n <;> simp_all

/-- Sorting does not reorder the elements of one key. -/
theorem sortOn_filter (key : α → Nat) (n : Nat) (xs : List α) :
    (sortOn key xs).filter (fun a => key a = n) = xs.filter fun a => key a = n := by
  induction xs with
  | nil => rfl
  | cons x xs ih =>
      rw [sortOn, insertOn_filter]
      simp only [List.filter_cons, ih]

/-- A list whose keys ascend is its own sorted form. -/
theorem sortOn_of_sorted (key : α → Nat) (xs : List α)
    (h : xs.Pairwise fun a b => key a ≤ key b) : sortOn key xs = xs := by
  induction xs with
  | nil => rfl
  | cons x xs ih =>
      obtain ⟨hx, hxs⟩ := List.pairwise_cons.mp h
      rw [sortOn, ih hxs]
      cases xs with
      | nil => rfl
      | cons y ys => simp [insertOn, hx y (List.mem_cons_self ..)]

/-- Two ascending lists that agree on the elements of every key are equal. -/
theorem eq_of_sorted {key : α → Nat} {xs ys : List α}
    (hx : xs.Pairwise fun a b => key a ≤ key b) (hy : ys.Pairwise fun a b => key a ≤ key b)
    (h : ∀ n, xs.filter (fun a => key a = n) = ys.filter fun a => key a = n) : xs = ys := by
  induction xs generalizing ys with
  | nil =>
      cases ys with
      | nil => rfl
      | cons y ys => simpa using h (key y)
  | cons x xs ih =>
      cases ys with
      | nil => simpa using h (key x)
      | cons y ys =>
          obtain ⟨hx₁, hxs⟩ := List.pairwise_cons.mp hx
          obtain ⟨hy₁, hys⟩ := List.pairwise_cons.mp hy
          -- each head occurs in the other list, so none is before the other
          have hxy : key y ≤ key x := by
            have hmem : x ∈ (y :: ys).filter fun a => key a = key x := by simp [← h]
            rcases List.mem_cons.mp (List.mem_filter.mp hmem).1 with rfl | hmem
            · exact Nat.le_refl _
            · exact hy₁ x hmem
          have hyx : key x ≤ key y := by
            have hmem : y ∈ (x :: xs).filter fun a => key a = key y := by simp [h]
            rcases List.mem_cons.mp (List.mem_filter.mp hmem).1 with rfl | hmem
            · exact Nat.le_refl _
            · exact hx₁ y hmem
          have hkey : key x = key y := Nat.le_antisymm hyx hxy
          have hhead := h (key x)
          simp only [List.filter_cons, hkey, decide_true, if_true, List.cons.injEq] at hhead
          obtain ⟨rfl, htail⟩ := hhead
          refine congrArg (x :: ·) (ih hxs hys fun n => ?_)
          by_cases hn : key x = n
          · rw [← hn]
            exact htail
          · simpa [List.filter_cons, hn] using h n

/-- Sorting and leaving elements out can be done in either order. -/
theorem filter_sortOn (key : α → Nat) (p : α → Bool) (xs : List α) :
    (sortOn key xs).filter p = sortOn key (xs.filter p) := by
  refine eq_of_sorted ((sortOn_sorted key xs).filter p) (sortOn_sorted key _) fun n => ?_
  have hswap : ∀ ys : List α, (ys.filter p).filter (fun a => key a = n) =
      (ys.filter fun a => key a = n).filter p := fun ys => by
    simp only [List.filter_filter, Bool.and_comm]
  rw [hswap, sortOn_filter, sortOn_filter, hswap]

/-- Where an element goes depends only on how its key compares. -/
theorem insertOn_congr {key key' : α → Nat} {x : α} {ys : List α}
    (h : ∀ y ∈ ys, key x ≤ key y ↔ key' x ≤ key' y) : insertOn key x ys = insertOn key' x ys := by
  induction ys with
  | nil => rfl
  | cons y ys ih =>
      obtain ⟨hy, hys⟩ := List.forall_mem_cons.mp h
      simp only [insertOn, hy, ih hys]

/-- Sorting depends only on how the keys compare. -/
theorem sortOn_congr {key key' : α → Nat} {xs : List α}
    (h : ∀ a ∈ xs, ∀ b ∈ xs, key a ≤ key b ↔ key' a ≤ key' b) :
    sortOn key xs = sortOn key' xs := by
  induction xs with
  | nil => rfl
  | cons x xs ih =>
      have hxs := ih fun a ha b hb => h a (List.mem_cons_of_mem _ ha) b (List.mem_cons_of_mem _ hb)
      rw [sortOn, sortOn, hxs]
      refine insertOn_congr fun y hy => h x (List.mem_cons_self ..) y ?_
      exact List.mem_cons_of_mem _ ((mem_sortOn _ _ y).mp hy)

/-- An element goes behind those with smaller keys that come first. -/
theorem map_insertOn {β : Type} {key : α → Nat} {f : α → β} {ahead : β → Bool} {x : α}
    {ys : List α} (h : ∀ y ∈ ys, ahead (f y) = decide (key y < key x)) :
    (insertOn key x ys).map f =
      (ys.map f).takeWhile ahead ++ f x :: (ys.map f).dropWhile ahead := by
  induction ys with
  | nil => rfl
  | cons y ys ih =>
      obtain ⟨hy, hys⟩ := List.forall_mem_cons.mp h
      unfold insertOn
      by_cases hxy : key x ≤ key y
      · simp [hy, hxy, Nat.not_lt.mpr hxy]
      · simp [hy, hxy, Nat.lt_of_not_le hxy, ih hys]

/-- What only elements of one kind satisfy is found in the same order if the kinds are parted. -/
theorem filter_parted {p q : α → Bool} (xs : List α)
    (h : (∀ a, q a = true → p a = true) ∨ ∀ a, q a = true → p a = false) :
    xs.filter q = (xs.filter p ++ xs.filter fun a => !p a).filter q := by
  rw [List.filter_append, List.filter_filter, List.filter_filter]
  rcases h with h | h
  · have hnone : xs.filter (fun a => q a && !p a) = [] :=
      List.filter_eq_nil_iff.mpr fun a _ => by simpa using h a
    rw [hnone, List.append_nil]
    exact List.filter_congr fun a _ => by simpa using h a
  · have hnone : xs.filter (fun a => q a && p a) = [] :=
      List.filter_eq_nil_iff.mpr fun a _ => by simpa using h a
    rw [hnone, List.nil_append]
    exact List.filter_congr fun a _ => by simpa using h a

/-- An element that comes before all that have its key is sorted as if it had been the first. -/
theorem sortOn_placed {key : α → Nat} {p : α → Bool} {x : α} {xs : List α}
    (hx : xs.filter p = [x]) : sortOn (fun a => 2 * key a + if p a then 0 else 1) xs =
      insertOn key x (sortOn key (xs.filter fun a => !p a)) := by
  have hp : p x = true := (List.mem_filter.mp (hx ▸ List.mem_singleton_self x)).2
  have hothers : ∀ a ∈ xs.filter fun a => !p a, p a = false := fun a ha => by
    simpa using (List.mem_filter.mp ha).2
  -- the doubled key is even for the element and odd for the others
  have hfirst : sortOn (fun a => 2 * key a + if p a then 0 else 1) xs =
      sortOn (fun a => 2 * key a + if p a then 0 else 1) (x :: xs.filter fun a => !p a) := by
    refine eq_of_sorted (sortOn_sorted _ _) (sortOn_sorted _ _) fun n => ?_
    rw [sortOn_filter, sortOn_filter, ← List.singleton_append, ← hx]
    refine filter_parted xs ?_
    simp only [decide_eq_true_eq]
    rcases Nat.mod_two_eq_zero_or_one n with hn | hn
    · refine .inl fun a ha => ?_
      split at ha
      · assumption
      · omega
    · refine .inr fun a ha => ?_
      split at ha
      · omega
      · exact Bool.eq_false_iff.mpr ‹_›
  have hrest : sortOn (fun a => 2 * key a + if p a then 0 else 1) (xs.filter fun a => !p a) =
      sortOn key (xs.filter fun a => !p a) := by
    refine sortOn_congr fun a ha b hb => ?_
    simp only [hothers a ha, hothers b hb, Bool.false_eq_true, if_false]
    omega
  rw [hfirst, sortOn, hrest]
  refine insertOn_congr fun y hy => ?_
  have hy := hothers y ((mem_sortOn _ _ y).mp hy)
  simp only [hp, hy, if_true, Bool.false_eq_true, if_false]
  omega

/-- Sorting does not reorder elements that have the same key. -/
theorem filter_sortOn_of_tie {key : α → Nat} {p : α → Bool} {n : Nat} {xs : List α}
    (h : ∀ a ∈ xs, p a = true → key a = n) : (sortOn key xs).filter p = xs.filter p := by
  rw [filter_sortOn]
  refine sortOn_of_sorted key _ (List.pairwise_of_forall_mem_list fun a ha b hb => ?_)
  rw [List.mem_filter] at ha hb
  exact Nat.le_of_eq ((h a ha.1 ha.2).trans (h b hb.1 hb.2).symm)

/-! ## Repetitions -/

/-- The elements of a list, each at the place where it first occurs. -/
def distinct [DecidableEq α] : List α → List α
  | [] => []
  | x :: xs => x :: (distinct xs).filter fun y => y ≠ x

@[simp] theorem mem_distinct [DecidableEq α] (xs : List α) (a : α) : a ∈ distinct xs ↔ a ∈ xs := by
  induction xs with
  | nil => simp [distinct]
  | cons x xs ih =>
      by_cases h : a = x <;> simp [distinct, ih, h]

end KeyedSchema
