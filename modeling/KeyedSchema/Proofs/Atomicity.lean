import KeyedSchema.Proofs.Outcome
import KeyedSchema.Proofs.Views

/-!
# Atomicity — edits that are carried out as a whole or not at all

An edit is atomic on a schema if a refusal leaves the schema **untouched**: no object, no event and
no held event differs, only the numbers given out may have moved on. Atomic edits check first;
once the checks have passed, nothing is refused any more.

Between the signals of a compound edit the objects are what they were outside, so a compound edit
of something that is never refused is atomic.
-/

namespace KeyedSchema

namespace Schema

variable {s s' : Schema}

/-- Whether two schemas differ at most in the numbers given out, which may have moved on. -/
structure Untouched (s s' : Schema) : Prop where
  same : s' = { s with
    lastTable := s'.lastTable
    lastColumn := s'.lastColumn
    lastRelationship := s'.lastRelationship }
  lastTable : s.lastTable ≤ s'.lastTable
  lastColumn : s.lastColumn ≤ s'.lastColumn
  lastRelationship : s.lastRelationship ≤ s'.lastRelationship

@[refl] theorem Untouched.refl (s : Schema) : Untouched s s :=
  ⟨rfl, Nat.le_refl _, Nat.le_refl _, Nat.le_refl _⟩

/-- Whether a change leads from one schema to the other, events told before and after it aside. -/
def AmidEvents (R : Schema → Schema → Prop) (s s' : Schema) : Prop :=
  ∃ s₁ s₂, SameObjects s s₁ ∧ R s₁ s₂ ∧ SameObjects s₂ s'

theorem AmidEvents.of_plain {R : Schema → Schema → Prop} (h : R s s') : AmidEvents R s s' :=
  ⟨s, s', .refl s, h, .refl s'⟩

end Schema

namespace Edit

open Schema

variable {α β : Type} {s : Schema} {Q : α → Schema → Prop}
  {R : α → Schema → Schema → Prop}

/-- Whether an edit ends in a yield that satisfies `Q`, or is refused and leaves the schema
untouched. -/
def Atomic (x : Edit α) (Q : α → Schema → Prop) (s : Schema) : Prop :=
  x.Ends Q (fun _ s' => s.Untouched s') s

theorem Atomic.imp {x : Edit α} {Q' : α → Schema → Prop} (h : x.Atomic Q s)
    (hQ : ∀ a s', Q a s' → Q' a s') : x.Atomic Q' s :=
  Ends.imp h hQ

theorem Ends.atomic {x : Edit α} (h : x.Ends Q (fun _ _ => False) s) : x.Atomic Q s :=
  h.total fun _ _ hQ => hQ

/-- A compound edit of what is never refused is never refused. -/
theorem ends_compound_amid {x : Edit α} (description : String)
    (hx : ∀ s₁, SameObjects s s₁ → x.Ends (fun a s₂ => R a s₁ s₂) (fun _ _ => False) s₁) :
    (compound description x).Ends (fun a s' => AmidEvents (R a) s s') (fun _ _ => False) s := by
  rw [ends_compound]
  have h₀ := SameObjects.signal (.compoundEditStarted description) s
  exact (hx _ h₀).imp fun _ s₂ h => ⟨_, s₂, h₀, h, SameObjects.signal _ s₂⟩

theorem ends_compoundIf_amid {x : Edit α} (when : Bool) (description : String)
    (hx : ∀ s₁, SameObjects s s₁ → x.Ends (fun a s₂ => R a s₁ s₂) (fun _ _ => False) s₁) :
    (compoundIf when description x).Ends (fun a s' => AmidEvents (R a) s s') (fun _ _ => False)
      s := by
  unfold compoundIf
  split
  · exact ends_compound_amid description hx
  · exact (hx s (.refl s)).imp fun _ _ h => .of_plain h

end Edit

end KeyedSchema
