import KeyedSchema.Proofs.Outcome

/-!
# Worklist — cascades as tasks that are worked off

A cascade is a list of tasks. Working off the first task changes the schema and may put new tasks in
front of the others. `WorksOff` relates the schemas before and after a whole list is worked off.

What a cascade achieves is an invariant of the pair of the schema and the tasks that are left:
`WorksOff.invariant` takes it from one step to a whole run.
-/

namespace KeyedSchema

variable {τ : Type} {step : τ → Schema → List τ × Schema}

/-- Whether working off the tasks leads from one schema to the other. -/
inductive WorksOff (step : τ → Schema → List τ × Schema) : List τ → Schema → Schema → Prop
  | done (s : Schema) : WorksOff step [] s s
  | task {t : τ} {ts : List τ} {s s' : Schema} :
      WorksOff step ((step t s).1 ++ ts) (step t s).2 s' → WorksOff step (t :: ts) s s'

namespace WorksOff

variable {ts ts' : List τ} {s s₁ s' : Schema}

/-- Two lists of tasks are worked off one after the other. -/
theorem append (h : WorksOff step ts s s₁) (h' : WorksOff step ts' s₁ s') :
    WorksOff step (ts ++ ts') s s' := by
  induction h with
  | done s => exact h'
  | task _ ih =>
      refine .task ?_
      simpa using ih h'

/-- A run may be cut at any of the tasks that it starts with. -/
theorem split (h : WorksOff step (ts ++ ts') s s') :
    ∃ s₁, WorksOff step ts s s₁ ∧ WorksOff step ts' s₁ s' := by
  generalize hall : ts ++ ts' = all at h
  induction h generalizing ts with
  | done s =>
      rcases List.append_eq_nil_iff.mp hall with ⟨rfl, rfl⟩
      exact ⟨s, .done s, .done s⟩
  | @task t rest s _ h ih =>
      cases ts with
      | nil =>
          obtain rfl : ts' = t :: rest := hall
          exact ⟨s, .done s, .task h⟩
      | cons t' ts =>
          obtain ⟨rfl, rfl⟩ := List.cons_eq_cons.mp hall
          rcases ih (List.append_assoc ..) with ⟨s₁, hfirst, hlast⟩
          exact ⟨s₁, .task hfirst, hlast⟩

/-- Where a run ends is determined by where it starts. -/
theorem unique (h : WorksOff step ts s s₁) (h' : WorksOff step ts s s') : s₁ = s' := by
  induction h with
  | done s =>
      cases h'
      rfl
  | task _ ih =>
      cases h' with
      | task h' => exact ih h'

/-- What every step keeps, of the tasks left and the schema, a whole run keeps. The tasks `rest`
are left for later. -/
theorem invariant {J : List τ → Schema → Prop}
    (hstep : ∀ t ts s, J (t :: ts) s → J ((step t s).1 ++ ts) (step t s).2)
    (h : WorksOff step ts s s') {rest : List τ} (hJ : J (ts ++ rest) s) : J rest s' := by
  induction h with
  | done s => exact hJ
  | task _ ih =>
      refine ih ?_
      rw [List.append_assoc]
      exact hstep _ _ _ hJ

/-- The invariant of a run that works off everything there is. -/
theorem invariant_all {J : List τ → Schema → Prop}
    (hstep : ∀ t ts s, J (t :: ts) s → J ((step t s).1 ++ ts) (step t s).2)
    (h : WorksOff step ts s s') (hJ : J ts s) : J [] s' :=
  h.invariant hstep (by rwa [List.append_nil])

/-- A relation that every step is in, and that can be chained, contains every run. -/
theorem relation {R : Schema → Schema → Prop} (refl : ∀ s, R s s)
    (trans : ∀ s s' s'', R s s' → R s' s'' → R s s'') (hstep : ∀ t s, R s (step t s).2)
    (h : WorksOff step ts s s') : R s s' := by
  induction h with
  | done s => exact refl s
  | task _ ih => exact trans _ _ _ (hstep _ _) ih

end WorksOff

/-! ## Chains -/

/-- Whether one relation for each element leads from one schema to the other. -/
inductive Chain {β : Type} (R : β → Schema → Schema → Prop) : List β → Schema → Schema → Prop
  | nil (s : Schema) : Chain R [] s s
  | cons {b : β} {bs : List β} {s s₁ s' : Schema} :
      R b s s₁ → Chain R bs s₁ s' → Chain R (b :: bs) s s'

/-- Where a chain ends is determined by where it starts, if it is so for every one of its links. -/
theorem Chain.unique {β : Type} {R : β → Schema → Schema → Prop} {bs : List β} {s s₁ s₂ : Schema}
    (hR : ∀ b s s₁ s₂, R b s s₁ → R b s s₂ → s₁ = s₂) (h₁ : Chain R bs s s₁)
    (h₂ : Chain R bs s s₂) : s₁ = s₂ := by
  induction h₁ with
  | nil s =>
      cases h₂
      rfl
  | cons hfirst _ ih =>
      cases h₂ with
      | cons hfirst' hrest =>
          obtain rfl := hR _ _ _ _ hfirst hfirst'
          exact ih hrest

/-- What every link keeps, the whole chain keeps. -/
theorem Chain.invariant {β : Type} {R : β → Schema → Schema → Prop} {J : Schema → Prop}
    {bs : List β} {s s' : Schema} (h : Chain R bs s s')
    (hlink : ∀ b ∈ bs, ∀ s₁ s₂, J s₁ → R b s₁ s₂ → J s₂) (hJ : J s) : J s' := by
  induction h with
  | nil s => exact hJ
  | cons h₁ _ ih =>
      exact ih (fun b hb => hlink b (List.mem_cons_of_mem _ hb))
        (hlink _ (List.mem_cons_self ..) _ _ hJ h₁)

/-- A loop chains what its rounds do. `P` is what the rounds need to go through. -/
theorem Edit.Ends.forM_chain {β : Type} {f : β → Edit Unit} {R : β → Schema → Schema → Prop}
    {P : Schema → Prop} {bs : List β} (round : ∀ b ∈ bs, ∀ s, P s →
      (f b).Ends (fun _ s' => R b s s' ∧ P s') (fun _ _ => False) s) :
    ∀ {s : Schema}, P s →
      (bs.forM f).Ends (fun _ s' => Chain R bs s s' ∧ P s') (fun _ _ => False) s := by
  induction bs with
  | nil => exact fun {s} hP => ⟨.nil s, hP⟩
  | cons b bs ih =>
      intro s hP
      rw [Edit.ends_forM_cons]
      refine (round b (List.mem_cons_self ..) s hP).imp fun _ s₁ h₁ => ?_
      refine (ih (fun b' hb' => round b' (List.mem_cons_of_mem _ hb')) h₁.2).imp
        fun _ s' h' => ⟨.cons h₁.1 h'.1, h'.2⟩

/-- A chain of tasks is worked off as one list. -/
theorem WorksOff.of_chain {β : Type} {task : β → τ} {bs : List β} {s s' : Schema}
    (h : Chain (fun b => WorksOff step [task b]) bs s s') : WorksOff step (bs.map task) s s' := by
  induction h with
  | nil s => exact .done s
  | cons h₁ _ ih => exact h₁.append ih

/-- A loop whose rounds work off one task each works off all of them. `P` is what the rounds need
to go through. -/
theorem Edit.Ends.forM_worksOff {β : Type} {f : β → Edit Unit} {P : Schema → Prop} {bs : List β}
    (step : τ → Schema → List τ × Schema) (task : β → τ) (round : ∀ b ∈ bs, ∀ s, P s →
      (f b).Ends (fun _ s' => WorksOff step [task b] s s' ∧ P s') (fun _ _ => False) s)
    {s : Schema} (hP : P s) :
    (bs.forM f).Ends (fun _ s' => WorksOff step (bs.map task) s s' ∧ P s') (fun _ _ => False) s :=
  (forM_chain (R := fun b => WorksOff step [task b]) round hP).imp fun _ _ h => ⟨.of_chain h.1, h.2⟩

end KeyedSchema
