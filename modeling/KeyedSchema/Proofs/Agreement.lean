import KeyedSchema.Proofs.Atomicity

/-!
# Agreement — edits that do the same

Two edits agree on a schema if they end there in the same way: with the same yield or the same
refusal, and in the same schema. Edits that are built alike from parts that agree do so themselves.
Since a part is only asked where the ones before it lead, `agrees_bind` turns the agreement of what
comes later into a promise about the outcome of what comes first.
-/

namespace KeyedSchema

namespace Edit

variable {α β : Type} {s : Schema}

/-- Whether two edits end in the same way on a schema. -/
def Agrees (x y : Edit α) (s : Schema) : Prop := x.perform s = y.perform s

namespace Agrees

variable {x y z : Edit α}

@[simp] theorem refl (x : Edit α) (s : Schema) : Agrees x x s := rfl

theorem of_eq (h : x = y) : Agrees x y s := congrArg (perform · s) h

theorem trans (h : Agrees x y s) (h' : Agrees y z s) : Agrees x z s := Eq.trans h h'

end Agrees

/-- Edits that agree on every schema are the same. -/
theorem eq_of_agrees {x y : Edit α} (h : ∀ s, Agrees x y s) : x = y := funext h

/-- Nothing need be known of an outcome of which nothing is promised. -/
theorem ends_trivial (x : Edit α) (s : Schema) :
    x.Ends (fun _ _ => True) (fun _ _ => True) s := by
  unfold Ends
  split <;> trivial

/-! ## One edit after the other -/

theorem perform_bind (x : Edit β) (f : β → Edit α) (s : Schema) :
    (x >>= f).perform s = match x.perform s with
      | (.ok b, s') => (f b).perform s'
      | (.error e, s') => (.error e, s') := by
  unfold perform
  simp only [bind, ExceptT.bind, ExceptT.mk, ExceptT.run, StateT.bind]
  rcases x s with ⟨b | b, s'⟩
  · rfl
  · rfl

/-- After the same beginning, what counts is whether the rest agrees where the beginning leads. -/
theorem agrees_bind (x : Edit β) (f g : β → Edit α) :
    Agrees (x >>= f) (x >>= g) s ↔
      x.Ends (fun b s' => Agrees (f b) (g b) s') (fun _ _ => True) s := by
  unfold Agrees Ends
  rw [perform_bind, perform_bind]
  rcases x.perform s with ⟨e | b, s'⟩
  · exact iff_of_true rfl trivial
  · exact Iff.rfl

/-- After a refusal it does not matter what would have come next. -/
theorem agrees_throw (e : EditError) (f g : β → Edit α) :
    Agrees (throw e >>= f) (throw e >>= g) s :=
  (agrees_bind _ f g).mpr trivial

theorem Agrees.bind_left {x y : Edit β} (h : Agrees x y s) (f : β → Edit α) :
    Agrees (x >>= f) (y >>= f) s := by
  unfold Agrees
  rw [perform_bind, perform_bind, h]

theorem Agrees.bind {x y : Edit β} {f g : β → Edit α} (h : Agrees x y s)
    (hrest : y.Ends (fun b s' => Agrees (f b) (g b) s') (fun _ _ => True) s) :
    Agrees (x >>= f) (y >>= g) s :=
  (h.bind_left f).trans ((agrees_bind y f g).mpr hrest)

theorem Agrees.map {x y : Edit β} (h : Agrees x y s) (f : β → α) : Agrees (f <$> x) (f <$> y) s := by
  rw [map_eq_pure_bind, map_eq_pure_bind]
  exact h.bind_left _

theorem Agrees.discard {x y : Edit α} (h : Agrees x y s) : Agrees (discard x) (discard y) s :=
  h.map _

/-- Edits that begin with the same change on a condition. -/
theorem agrees_changeIf (c : Prop) [Decidable c] (f : Schema → Schema) (x y : Edit α) :
    Agrees (if c then change f >>= fun _ => x else x) (if c then change f >>= fun _ => y else y) s ↔
      Agrees x y (if c then f s else s) := by
  split
  · rw [agrees_bind, ends_change]
  · rfl

/-! ## Compound edits and scopes -/

theorem Agrees.compound {x y : Edit α} (description : String)
    (h : Agrees x y (s.signal (.compoundEditStarted description))) :
    Agrees (compound description x) (compound description y) s := by
  have hc : ∀ z : Edit α, (Edit.compound description z).perform s =
      ((z.perform (s.signal (.compoundEditStarted description))).1,
        (z.perform (s.signal (.compoundEditStarted description))).2.signal .compoundEditEnded) :=
    fun _ => rfl
  unfold Agrees
  rw [hc, hc, h]

theorem Agrees.compoundIf {x y : Edit α} (when : Bool) (description : String)
    (h : ∀ s₁, Schema.SameObjects s s₁ → Agrees x y s₁) :
    Agrees (compoundIf when description x) (compoundIf when description y) s := by
  unfold Edit.compoundIf
  split
  · exact (h _ (.signal _ s)).compound description
  · exact h s (.refl s)

theorem Agrees.attempt {x y : Edit α} (h : Agrees x y s) : Agrees (attempt x) (attempt y) s := by
  have ha : ∀ z : Edit α, (Edit.attempt z).perform s = (.ok (z.perform s).1, (z.perform s).2) :=
    fun _ => rfl
  unfold Agrees
  rw [ha, ha, h]

/-! ## Loops -/

/-- Loops agree if their rounds do; `P` is what the rounds need for that. -/
theorem Agrees.forM {f g : β → Edit Unit} {P : Schema → Prop} {bs : List β}
    (round : ∀ b ∈ bs, ∀ s, P s →
      Agrees (f b) (g b) s ∧ (g b).Ends (fun _ => P) (fun _ _ => True) s) :
    ∀ {s : Schema}, P s → Agrees (bs.forM f) (bs.forM g) s := by
  induction bs with
  | nil => exact fun _ => .refl _ _
  | cons b bs ih =>
      intro s hP
      obtain ⟨hb, hkeep⟩ := round b (List.mem_cons_self ..) s hP
      refine Agrees.bind (f := fun _ => bs.forM f) (g := fun _ => bs.forM g) hb ?_
      exact hkeep.imp fun _ s₁ h₁ => ih (fun b' hb' => round b' (List.mem_cons_of_mem _ hb')) h₁

end Edit

end KeyedSchema
