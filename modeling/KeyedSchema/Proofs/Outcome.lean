import KeyedSchema.Schema.Scope

/-!
# Outcome — what an edit ends in

`Edit.Ends x Q E s` says that the edit `x`, carried out on the schema `s`, ends either in a yield
and a schema that satisfy `Q`, or in a refusal and a schema that satisfy `E`. Since an edit keeps
what it did before it was refused, both sides speak about a schema.

There is one equation for each way in which edits are built, so that the outcome of an edit is
computed from the outcomes of its parts, and one rule for the loops over lists.
-/

namespace KeyedSchema

namespace Edit

variable {α β : Type}

/-- Whether an edit ends in a yield that satisfies `Q` or in a refusal that satisfies `E`. -/
def Ends (x : Edit α) (Q : α → Schema → Prop) (E : EditError → Schema → Prop) (s : Schema) :
    Prop :=
  match x.perform s with
  | (.ok a, s') => Q a s'
  | (.error e, s') => E e s'

variable {Q Q' : α → Schema → Prop} {E E' : EditError → Schema → Prop} {s s' : Schema}

/-! ## Reading an outcome -/

theorem Ends.of_ok {x : Edit α} {a : α} (h : x.Ends Q E s) (hx : x.perform s = (.ok a, s')) :
    Q a s' := by
  simpa [Ends, hx] using h

theorem Ends.of_error {x : Edit α} {e : EditError} (h : x.Ends Q E s)
    (hx : x.perform s = (.error e, s')) : E e s' := by
  simpa [Ends, hx] using h

/-- Whatever the outcome, the schema left behind satisfies what both sides promise. -/
theorem Ends.left {x : Edit α} {P : Schema → Prop} (h : x.Ends (fun _ => P) (fun _ => P) s) :
    P (x.perform s).2 := by
  unfold Ends at h
  split at h <;> simp_all

theorem Ends.mono {x : Edit α} (h : x.Ends Q E s) (hQ : ∀ a s', Q a s' → Q' a s')
    (hE : ∀ e s', E e s' → E' e s') : x.Ends Q' E' s := by
  unfold Ends at h ⊢
  split
  · rename_i hx
    rw [hx] at h
    exact hQ _ _ h
  · rename_i hx
    rw [hx] at h
    exact hE _ _ h

/-- Only the promise about the yield is weakened. -/
theorem Ends.and {x : Edit α} (h : x.Ends Q E s) (h' : x.Ends Q' E' s) :
    x.Ends (fun a s' => Q a s' ∧ Q' a s') (fun e s' => E e s' ∧ E' e s') s := by
  unfold Ends at h h' ⊢
  split
  · rename_i hx
    rw [hx] at h h'
    exact ⟨h, h'⟩
  · rename_i hx
    rw [hx] at h h'
    exact ⟨h, h'⟩

theorem Ends.imp {x : Edit α} (h : x.Ends Q E s) (hQ : ∀ a s', Q a s' → Q' a s') :
    x.Ends Q' E s :=
  h.mono hQ fun _ _ he => he

/-- An edit that is never refused keeps any promise about refusals. -/
theorem Ends.total {x : Edit α} (h : x.Ends Q (fun _ _ => False) s)
    (hQ : ∀ a s', Q a s' → Q' a s') : x.Ends Q' E s :=
  h.mono hQ fun _ _ he => he.elim

/-- An edit that is never refused yields something. -/
theorem Ends.exists_ok {x : Edit α} (h : x.Ends Q (fun _ _ => False) s) :
    ∃ a s', x.perform s = (.ok a, s') ∧ Q a s' := by
  unfold Ends at h
  split at h
  · rename_i a s' hx
    exact ⟨a, s', hx, h⟩
  · exact h.elim

/-- An edit that cannot end otherwise ends so. -/
theorem Ends.perform_eq {x : Edit α} {a : α}
    (h : x.Ends (fun b s'' => b = a ∧ s'' = s') (fun _ _ => False) s) :
    x.perform s = (.ok a, s') := by
  unfold Ends at h
  split at h
  · rename_i hx
    rw [hx, h.1, h.2]
  · exact h.elim

/-- What is known to yield something ends so. -/
theorem ends_of_perform {x : Edit α} {a : α} (h : x.perform s = (.ok a, s')) :
    x.Ends Q E s ↔ Q a s' := by
  unfold Ends
  rw [h]

/-- The schema of an outcome is the one that the edit leaves. -/
theorem Ends.performed {x : Edit α} (h : x.Ends Q E s) :
    x.Ends (fun a s' => Q a s' ∧ s' = (x.perform s).2) (fun e s' => E e s' ∧ s' = (x.perform s).2)
      s := by
  unfold Ends at h ⊢
  split
  · rename_i hx
    rw [hx] at h
    exact ⟨h, by rw [hx]⟩
  · rename_i hx
    rw [hx] at h
    exact ⟨h, by rw [hx]⟩

/-- Whether an edit is refused. -/
def Refuses (x : Edit α) (s : Schema) : Prop := ∃ e s', x.perform s = (.error e, s')

/-- A condition that tells refusals from yields is what an edit is refused for. -/
theorem Ends.refuses_iff {x : Edit α} {P : Prop} (h : x.Ends (fun _ _ => ¬ P) (fun _ _ => P) s) :
    x.Refuses s ↔ P := by
  unfold Ends at h
  unfold Refuses
  split at h <;> rename_i hx <;> simp [hx, h]

/-! ## The ways edits are built -/

@[simp] theorem ends_pure (a : α) : (pure a : Edit α).Ends Q E s ↔ Q a s := Iff.rfl

@[simp] theorem ends_throw (e : EditError) : (throw e : Edit α).Ends Q E s ↔ E e s := Iff.rfl

@[simp] theorem ends_bind (x : Edit β) (f : β → Edit α) :
    (x >>= f).Ends Q E s ↔ x.Ends (fun b s' => (f b).Ends Q E s') E s := by
  unfold Ends perform
  simp only [bind, ExceptT.bind, ExceptT.mk, ExceptT.run, StateT.bind]
  rcases x s with ⟨b | b, s'⟩
  · rfl
  · rfl

@[simp] theorem ends_map (f : β → α) (x : Edit β) :
    (f <$> x).Ends Q E s ↔ x.Ends (fun b s' => Q (f b) s') E s := by
  rw [map_eq_pure_bind, ends_bind]
  rfl

@[simp] theorem ends_discard (x : Edit α) {Q : Unit → Schema → Prop} :
    (discard x).Ends Q E s ↔ x.Ends (fun _ s' => Q () s') E s := by
  unfold discard
  exact ends_map _ _

@[simp] theorem ends_get {Q : Schema → Schema → Prop} :
    (get : Edit Schema).Ends Q E s ↔ Q s s := Iff.rfl

@[simp] theorem ends_change (f : Schema → Schema) {Q : Unit → Schema → Prop} :
    (change f).Ends Q E s ↔ Q () (f s) := Iff.rfl

/-- A change that is made only on a condition. -/
theorem ends_changeIf (c : Prop) [Decidable c] (f : Schema → Schema) (k : Edit α) :
    (if c then change f >>= fun _ => k else k).Ends Q E s ↔ k.Ends Q E (if c then f s else s) := by
  split
  · rw [ends_bind, ends_change]
  · rfl

@[simp] theorem ends_ask (f : Schema → α) : (ask f).Ends Q E s ↔ Q (f s) s := Iff.rfl

@[simp] theorem ends_raise (e : Event) {Q : Unit → Schema → Prop} :
    (raise e).Ends Q E s ↔ Q () (s.raise e) := Iff.rfl

theorem ends_require (value : Option α) (e : EditError) :
    (require value e).Ends Q E s ↔ (∀ a, value = some a → Q a s) ∧ (value = none → E e s) := by
  cases value with
  | none => simp [require]
  | some a => simp [require]

@[simp] theorem ends_require_some (a : α) (e : EditError) :
    (require (some a) e).Ends Q E s ↔ Q a s := Iff.rfl

theorem ends_table (t : TableId) {Q : Table → Schema → Prop} :
    (table t).Ends Q E s ↔ (∀ tbl, s.tables.get? t = some tbl → Q tbl s) ∧
      (s.tables.get? t = none → E (.unknownTable t) s) := by
  unfold table
  simp only [ends_bind, ends_get]
  exact ends_require _ _

theorem ends_column (c : ColumnId) {Q : Column → Schema → Prop} :
    (column c).Ends Q E s ↔ (∀ col, s.columns.get? c = some col → Q col s) ∧
      (s.columns.get? c = none → E (.unknownColumn c) s) := by
  unfold column
  simp only [ends_bind, ends_get]
  exact ends_require _ _

theorem ends_relationship (r : RelationshipId) {Q : Relationship → Schema → Prop} :
    (relationship r).Ends Q E s ↔ (∀ rel, s.relationships.get? r = some rel → Q rel s) ∧
      (s.relationships.get? r = none → E (.unknownRelationship r) s) := by
  unfold relationship
  simp only [ends_bind, ends_get]
  exact ends_require _ _

/-! ## Looking up what is there -/

theorem ends_table_of {t : TableId} {tbl : Table} (h : s.tables.get? t = some tbl)
    {Q : Table → Schema → Prop} : (table t).Ends Q E s ↔ Q tbl s := by
  simp [ends_table, h]

theorem ends_column_of {c : ColumnId} {col : Column} (h : s.columns.get? c = some col)
    {Q : Column → Schema → Prop} : (column c).Ends Q E s ↔ Q col s := by
  simp [ends_column, h]

theorem ends_relationship_of {r : RelationshipId} {rel : Relationship}
    (h : s.relationships.get? r = some rel) {Q : Relationship → Schema → Prop} :
    (relationship r).Ends Q E s ↔ Q rel s := by
  simp [ends_relationship, h]

theorem ends_ownerOf (c : ColumnId) {Q : TableId → Schema → Prop} :
    (ownerOf c).Ends Q E s ↔ (∀ t, s.owner? c = some t → Q t s) ∧
      (s.owner? c = none → E (.unknownColumn c) s) := by
  unfold ownerOf Schema.owner?
  cases h : s.columns.get? c with
  | none => simp [ends_column, h]
  | some col => simp [ends_column, h, ends_require]

theorem ends_ownerOf_of {c : ColumnId} {t : TableId} (h : s.owner? c = some t)
    {Q : TableId → Schema → Prop} : (ownerOf c).Ends Q E s ↔ Q t s := by
  simp [ends_ownerOf, h]

/-! ## Compound edits and scopes -/

theorem ends_compound (description : String) (x : Edit α) :
    (compound description x).Ends Q E s ↔
      x.Ends (fun a s' => Q a (s'.signal .compoundEditEnded))
        (fun e s' => E e (s'.signal .compoundEditEnded))
        (s.signal (.compoundEditStarted description)) := by
  unfold Ends perform compound
  simp only [ExceptT.run_mk]
  change (match (match x (s.signal (.compoundEditStarted description)) with
    | (o, s') => (o, s'.signal .compoundEditEnded)) with
    | (.ok a, s') => Q a s'
    | (.error e, s') => E e s') ↔ _
  rcases h : x (s.signal (.compoundEditStarted description)) with ⟨o | o, s'⟩
  · simp [ExceptT.run, h]
  · simp [ExceptT.run, h]

theorem ends_attempt (x : Edit α) {Q : Except EditError α → Schema → Prop} :
    (attempt x).Ends Q E s ↔ x.Ends (fun a => Q (.ok a)) (fun e => Q (.error e)) s := by
  unfold Ends perform attempt
  change (match (match x s with | (o, s') => (Except.ok o, s') :
      Except EditError (Except EditError α) × Schema) with
    | (.ok a, s') => Q a s'
    | (.error e, s') => E e s') ↔ _
  rcases h : x s with ⟨o | o, s'⟩
  · simp [ExceptT.run, h]
  · simp [ExceptT.run, h]

theorem ends_ofOutcome (outcome : Except EditError α) :
    (ofOutcome outcome).Ends Q E s ↔
      (∀ a, outcome = .ok a → Q a s) ∧ ∀ e, outcome = .error e → E e s := by
  cases outcome with
  | ok a => simp [Ends, ofOutcome, perform]; rfl
  | error e => simp [Ends, ofOutcome, perform]; rfl

/-! ## Loops -/

@[simp] theorem ends_forM_nil (f : β → Edit Unit) {Q : Unit → Schema → Prop} :
    (([] : List β).forM f).Ends Q E s ↔ Q () s := Iff.rfl

@[simp] theorem ends_forM_cons (b : β) (bs : List β) (f : β → Edit Unit)
    {Q : Unit → Schema → Prop} :
    ((b :: bs).forM f).Ends Q E s ↔ (f b).Ends (fun _ s' => (bs.forM f).Ends Q E s') E s := by
  change (f b >>= fun _ => bs.forM f).Ends Q E s ↔ _
  exact ends_bind _ _

/-- A loop keeps what each of its rounds keeps; `I` speaks about the elements still to come. -/
theorem Ends.forM {f : β → Edit Unit} {I : List β → Schema → Prop}
    (round : ∀ b bs s, I (b :: bs) s → (f b).Ends (fun _ => I bs) E s) :
    ∀ {bs : List β} {s : Schema}, I bs s → (bs.forM f).Ends (fun _ => I []) E s
  | [], _, h => h
  | b :: bs, s, h => by
      rw [ends_forM_cons]
      exact (round b bs s h).imp fun _ _ h' => Ends.forM round h'

end Edit

end KeyedSchema
