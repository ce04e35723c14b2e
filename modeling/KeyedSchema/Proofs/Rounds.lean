import KeyedSchema.Proofs.Cut

/-!
# Rounds — mappings that are taken out one by one

A column that leaves has its mappings taken out first to last, a relationship that leaves last to
first; each time the list is looked at anew. Such a loop ends after as many rounds as there are
mappings to take out. Where it ends, and every event it tells, is what `unmapWhere` and
`clearMappings` say at once.
-/

namespace KeyedSchema

namespace Roster

variable {κ α : Type} [DecidableEq κ]

theorem change_congr {k : κ} {f g : α → α} {es : List (κ × α)}
    (h : ∀ e ∈ es, e.1 = k → f e.2 = g e.2) : change k f es = change k g es := by
  induction es with
  | nil => rfl
  | cons e es ih =>
      simp only [change]
      rw [ih fun e' he' => h e' (List.mem_cons_of_mem _ he')]
      split
      · rename_i hk
        rw [h e (List.mem_cons_self ..) hk]
      · rfl

theorem modify_id (m : Roster κ α) (k : κ) : m.modify k id = m := by
  refine congrArg Roster.mk ?_
  induction m.entries with
  | nil => rfl
  | cons e es ih => simp [change, ih]

end Roster

namespace Schema

variable {s s' s'' : Schema} {r : RelationshipId}

/-- Whether a loop that repeats `round` as long as there is something to do ends after the given
number of rounds. -/
inductive Rounds (round : Schema → Option Schema) : Nat → Schema → Schema → Prop
  | done {s : Schema} (h : round s = none) : Rounds round 0 s s
  | next {n : Nat} {s s₁ s' : Schema} (h : round s = some s₁) :
      Rounds round n s₁ s' → Rounds round (n + 1) s s'

/-- Take the first mapping that satisfies `p` out of a relationship. -/
def dropFirst? (p : Mapping → Bool) (r : RelationshipId) (s : Schema) : Option Schema :=
  match (s.mappingsOf r).findIdx? p, (s.mappingsOf r).find? p with
  | some i, some m => some (s.removeMappingAt r m i)
  | _, _ => none

/-- Take the last mapping out of a relationship. -/
def dropLast? (r : RelationshipId) (s : Schema) : Option Schema :=
  (s.mappingsOf r).getLast?.map fun m => s.removeMappingAt r m ((s.mappingsOf r).length - 1)

/-! ## Mappings of one relationship -/

/-- Apply `g` to the mappings of a relationship. -/
def mapMappings (r : RelationshipId) (g : List Mapping → List Mapping) (s : Schema) : Schema :=
  s.changeRelationship r fun rel => { rel with mappings := g rel.mappings }

/-- What a relationship becomes is decided by what becomes of its mappings. -/
theorem mapMappings_congr (h : s.relationships.keys.Nodup) {g g' : List Mapping → List Mapping}
    (hg : g (s.mappingsOf r) = g' (s.mappingsOf r)) : s.mapMappings r g = s.mapMappings r g' := by
  refine congrArg (fun rels => { s with relationships := rels }) (congrArg Roster.mk ?_)
  refine Roster.change_congr ?_
  rintro ⟨r', rel⟩ he rfl
  have hrel := (Roster.get?_eq_some_iff h r' rel).mpr he
  have hm : s.mappingsOf r' = rel.mappings := by simp [mappingsOf, hrel]
  rw [hm] at hg
  simp only [hg]

theorem mapMappings_of_eq (h : s.relationships.keys.Nodup) {g : List Mapping → List Mapping}
    (hg : g (s.mappingsOf r) = s.mappingsOf r) : s.mapMappings r g = s := by
  have hid : s.mapMappings r g = s.mapMappings r id := mapMappings_congr h hg
  rw [hid]
  unfold mapMappings changeRelationship
  exact congrArg (fun rels => { s with relationships := rels }) (Roster.modify_id s.relationships r)

theorem mapMappings_mapMappings (r : RelationshipId) (g g' : List Mapping → List Mapping)
    (s : Schema) : (s.mapMappings r g).mapMappings r g' = s.mapMappings r (g' ∘ g) := by
  unfold mapMappings changeRelationship
  rw [Roster.modify_modify]
  rfl

/-- What is told does not depend on the mappings of a relationship. -/
theorem raise_mapMappings (e : Event) (r : RelationshipId) (g : List Mapping → List Mapping)
    (s : Schema) : (s.raise e).mapMappings r g = (s.mapMappings r g).raise e := by
  have hchild : ∀ r', ((s.mapMappings r g).relationships.get? r').bind Relationship.child =
      (s.relationships.get? r').bind Relationship.child :=
    fun r' => Roster.read_modify _ r r' (Option.bind · _) fun _ => rfl
  have htable : (s.mapMappings r g).tableOf? e = s.tableOf? e := by
    unfold tableOf?
    split
    · rfl
    · rfl
    · rfl
    · rfl
    · exact hchild _
  have hholder : (s.mapMappings r g).holder? e = s.holder? e := by
    unfold holder?
    rw [htable]
    rfl
  unfold raise
  rw [hholder]
  split
  · rfl
  · rfl

theorem removeMappingAt_eq (r : RelationshipId) (m : Mapping) (i : Nat) (s : Schema) :
    s.removeMappingAt r m i =
      (s.mapMappings r fun ms => ms.eraseIdx i).raise (.childRemoved (.relationship r) (.mapping m) i) :=
  rfl

/-- One mapping taken out, then all of a list at once: the events come in that order. -/
theorem mapMappings_removeMappingAt (h : s.relationships.keys.Nodup) (m : Mapping) (i : Nat)
    {g : List Mapping → List Mapping} (hg : g ((s.mappingsOf r).eraseIdx i) = g (s.mappingsOf r))
    (es : List Event) :
    ((s.removeMappingAt r m i).mapMappings r g).raiseAll es =
      (s.mapMappings r g).raiseAll (.childRemoved (.relationship r) (.mapping m) i :: es) := by
  have hmap : (s.mapMappings r fun ms => ms.eraseIdx i).mapMappings r g = s.mapMappings r g := by
    rw [mapMappings_mapMappings]
    exact mapMappings_congr h hg
  rw [removeMappingAt_eq, raise_mapMappings, hmap]
  rfl

/-! ## First to last -/

theorem unmapWhere_eq (h : s.relationships.keys.Nodup) (p : Mapping → Bool) :
    s.unmapWhere p r = (s.mapMappings r fun ms => ms.filter fun m => !p m).raiseAll
      ((removals p 0 (s.mappingsOf r)).map fun (i, m) =>
        .childRemoved (.relationship r) (.mapping m) i) := by
  cases hr : s.relationships.get? r with
  | none =>
      have hm : s.mappingsOf r = [] := by simp [mappingsOf, hr]
      rw [mapMappings_of_eq h (by rw [hm]; rfl), hm]
      simp [unmapWhere, hr, removals, raiseAll]
  | some rel => simp [unmapWhere, mapMappings, mappingsOf, hr]

/-- The removals of a list begin with the first mapping of the kind. -/
theorem removals_of_find {p : Mapping → Bool} {m : Mapping} :
    ∀ {ms : List Mapping} {i : Nat} (k : Nat), ms.findIdx? p = some i → ms.find? p = some m →
      removals p k ms = (k + i, m) :: removals p k (ms.eraseIdx i)
  | [], _, _, h, _ => by simp at h
  | m' :: ms, i, k, hi, hm => by
      rw [List.findIdx?_cons] at hi
      rw [List.find?_cons] at hm
      cases hp : p m' with
      | true =>
          rw [hp] at hi hm
          obtain rfl := Option.some.inj hi
          obtain rfl := Option.some.inj hm
          simp [removals, hp]
      | false =>
          rw [hp] at hi hm
          obtain ⟨j, hj, rfl⟩ := Option.map_eq_some_iff.mp hi
          have hrest := removals_of_find (k + 1) hj hm
          simp only [removals, hp, List.eraseIdx_cons_succ, Bool.false_eq_true, if_false]
          rw [hrest, Nat.add_assoc, Nat.add_comm 1 j]

theorem removals_of_none {p : Mapping → Bool} {ms : List Mapping} (h : ∀ m ∈ ms, ¬ p m = true)
    (k : Nat) : removals p k ms = [] := by
  induction ms generalizing k with
  | nil => rfl
  | cons m ms ih =>
      simp only [removals, h m (List.mem_cons_self ..)]
      exact ih (fun m' hm' => h m' (List.mem_cons_of_mem _ hm')) (k + 1)

/-- Without the first mapping of the kind, one less is left of it and the others are the same. -/
theorem eraseIdx_of_find {p : Mapping → Bool} :
    ∀ {ms : List Mapping} {i : Nat}, ms.findIdx? p = some i →
      (ms.eraseIdx i).filter (fun m => !p m) = ms.filter (fun m => !p m) ∧
        (ms.eraseIdx i).countP p + 1 = ms.countP p
  | [], _, h => by simp at h
  | m :: ms, i, hi => by
      rw [List.findIdx?_cons] at hi
      cases hp : p m with
      | true =>
          rw [hp] at hi
          obtain rfl := Option.some.inj hi
          simp [hp]
      | false =>
          rw [hp] at hi
          obtain ⟨j, hj, rfl⟩ := Option.map_eq_some_iff.mp hi
          obtain ⟨hfilter, hcount⟩ := eraseIdx_of_find hj
          simp [hp, hfilter, hcount]

/-- Taking the mappings that satisfy `p` out one by one, first to last, ends after as many rounds
as there are such mappings, in the schema in which all of them are taken out at once. -/
theorem rounds_unmapWhere (p : Mapping → Bool) (r : RelationshipId) (n : Nat) : ∀ (s : Schema),
    s.relationships.keys.Nodup → (s.mappingsOf r).countP p = n →
    Rounds (dropFirst? p r) n s (s.unmapWhere p r) := by
  induction n with
  | zero =>
      intro s hnodup hcount
      have hnone : ∀ m ∈ s.mappingsOf r, ¬ p m = true := List.countP_eq_zero.mp hcount
      have hfind : (s.mappingsOf r).findIdx? p = none := by simpa using hnone
      have hfilter : (s.mappingsOf r).filter (fun m => !p m) = s.mappingsOf r :=
        List.filter_eq_self.mpr fun m hm => by simpa using hnone m hm
      have hstays : s.unmapWhere p r = s := by
        rw [unmapWhere_eq hnodup, removals_of_none hnone, mapMappings_of_eq hnodup hfilter]
        rfl
      rw [hstays]
      refine .done ?_
      simp [dropFirst?, hfind]
  | succ n ih =>
      intro s hnodup hcount
      have hsome : ∃ m ∈ s.mappingsOf r, p m = true :=
        List.countP_pos_iff.mp (hcount ▸ Nat.succ_pos n)
      obtain ⟨m, hm⟩ := Option.isSome_iff_exists.mp (List.find?_isSome.mpr hsome)
      obtain ⟨i, hi⟩ := Option.isSome_iff_exists.mp
        (List.findIdx?_isSome.trans (List.any_eq_true.mpr hsome))
      obtain ⟨hfilter, hfewer⟩ := eraseIdx_of_find hi
      have hmappings : (s.removeMappingAt r m i).mappingsOf r = (s.mappingsOf r).eraseIdx i := by
        rw [mappingsOf_removeMappingAt, if_pos rfl]
      have hnodup₁ : (s.removeMappingAt r m i).relationships.keys.Nodup := by
        rw [(unmaps_removeMappingAt r m i s).sameFrame.keys_relationships]
        exact hnodup
      -- the rest of the rounds takes out what is left
      have hrest : (s.removeMappingAt r m i).unmapWhere p r = s.unmapWhere p r := by
        rw [unmapWhere_eq hnodup₁, unmapWhere_eq hnodup, hmappings, removals_of_find 0 hi hm]
        rw [mapMappings_removeMappingAt hnodup m i hfilter]
        simp
      rw [← hrest]
      refine .next ?_ (ih _ hnodup₁ ?_)
      · simp [dropFirst?, hi, hm]
      · rw [hmappings]
        omega

/-! ## Last to first -/

theorem clearMappings_eq (h : s.relationships.keys.Nodup) :
    s.clearMappings r = (s.mapMappings r fun _ => []).raiseAll
      ((s.mappingsOf r).zipIdx.reverse.map fun (m, i) =>
        .childRemoved (.relationship r) (.mapping m) i) := by
  cases hr : s.relationships.get? r with
  | none =>
      have hm : s.mappingsOf r = [] := by simp [mappingsOf, hr]
      rw [mapMappings_of_eq h (by rw [hm]), hm]
      simp [clearMappings, hr, raiseAll]
  | some rel => simp [clearMappings, mapMappings, mappingsOf, hr]

/-- Taking all mappings out one by one, last to first, ends after as many rounds as there are
mappings, in the schema in which all of them are taken out at once. -/
theorem rounds_clearMappings (r : RelationshipId) (n : Nat) : ∀ (s : Schema),
    s.relationships.keys.Nodup → (s.mappingsOf r).length = n →
    Rounds (dropLast? r) n s (s.clearMappings r) := by
  induction n with
  | zero =>
      intro s hnodup hlen
      have hm : s.mappingsOf r = [] := List.eq_nil_of_length_eq_zero hlen
      have hstays : s.clearMappings r = s := by
        rw [clearMappings_eq hnodup, hm, mapMappings_of_eq hnodup hm.symm]
        rfl
      rw [hstays]
      refine .done ?_
      simp [dropLast?, hm]
  | succ n ih =>
      intro s hnodup hlen
      have hne : s.mappingsOf r ≠ [] := List.ne_nil_of_length_eq_add_one hlen
      obtain ⟨ms, m, hm⟩ : ∃ ms m, s.mappingsOf r = ms ++ [m] :=
        ⟨_, _, (List.dropLast_append_getLast hne).symm⟩
      have hms : ms.length = n := by simpa [hm] using hlen
      have herase : (s.mappingsOf r).eraseIdx n = ms := by
        rw [hm, ← hms, List.eraseIdx_append_of_length_le (Nat.le_refl _)]
        simp
      have hmappings : (s.removeMappingAt r m n).mappingsOf r = ms := by
        rw [mappingsOf_removeMappingAt, if_pos rfl, herase]
      have hnodup₁ : (s.removeMappingAt r m n).relationships.keys.Nodup := by
        rw [(unmaps_removeMappingAt r m n s).sameFrame.keys_relationships]
        exact hnodup
      have hrest : (s.removeMappingAt r m n).clearMappings r = s.clearMappings r := by
        rw [clearMappings_eq hnodup₁, clearMappings_eq hnodup, hmappings, hm,
          mapMappings_removeMappingAt hnodup m n rfl]
        simp [List.zipIdx_append, hms]
      rw [← hrest]
      refine .next ?_ (ih _ hnodup₁ (by rw [hmappings, hms]))
      simp [dropLast?, hm, hms]

end Schema

end KeyedSchema
