import KeyedSchema.Proofs.Delivery

/-!
# Nesting — the signals of compound edits

A compound edit is published between two signals. Signals are never held back, and every edit sends
the closing one whatever becomes of its body; so the signals of whatever an operation publishes are
balanced, and at any time the compound edits that a listener has seen opened but not closed are those
whose scopes are open.
-/

namespace KeyedSchema

/-! ## Balanced series of events -/

namespace Event

/-- How deep compound edits are nested after an event; an end without a start fits nowhere. -/
def nest? : Nat → Event → Option Nat
  | depth, compoundEditStarted _ => some (depth + 1)
  | 0, compoundEditEnded => none
  | depth + 1, compoundEditEnded => some depth
  | depth, _ => some depth

/-- How deep compound edits are nested after a series of events, if every end has its start. -/
def nesting? (depth : Nat) (es : List Event) : Option Nat := es.foldlM nest? depth

variable {e : Event} {es es' : List Event} {depth n : Nat}

theorem nesting?_append (depth : Nat) (es es' : List Event) :
    nesting? depth (es ++ es') = (nesting? depth es).bind fun d => nesting? d es' :=
  List.foldlM_append

theorem nest?_of_plain (he : e.isCompoundSignal = false) (depth : Nat) :
    nest? depth e = some depth := by
  cases e <;> first | rfl | cases he

/-- Around a series of events any number of compound edits may be open. -/
theorem nesting?_add (h : nesting? depth es = some n) (more : Nat) :
    nesting? (depth + more) es = some (n + more) := by
  -- an end that has its start in the series never closes one of those around it
  induction es generalizing depth with
  | nil =>
      obtain rfl := Option.some.inj h
      rfl
  | cons e es ih =>
      obtain ⟨d, hd, hrest⟩ := Option.bind_eq_some_iff.mp h
      have hstep : nest? (depth + more) e = some (d + more) := by
        cases e with
        | compoundEditStarted description =>
            obtain rfl := Option.some.inj hd
            exact congrArg some (Nat.add_right_comm depth more 1)
        | compoundEditEnded =>
            cases depth with
            | zero => cases hd
            | succ depth =>
                obtain rfl := Option.some.inj hd
                rw [Nat.add_right_comm]
                rfl
        | childInserted | childRemoved | propertyChanged | structureChanged =>
            rw [nest?_of_plain rfl] at hd ⊢
            obtain rfl := Option.some.inj hd
            rfl
      exact Option.bind_eq_some_iff.mpr ⟨_, hstep, ih hrest⟩

/-- Whether the signals in a series of events go together in pairs. -/
inductive Balanced : List Event → Prop
  | nil : Balanced []
  | plain {es : List Event} {e : Event} (h : Balanced es) (he : e.isCompoundSignal = false) :
      Balanced (es ++ [e])
  | compound {es body : List Event} (h : Balanced es) (description : String) (hbody : Balanced body) :
      Balanced (es ++ (compoundEditStarted description :: body ++ [compoundEditEnded]))

namespace Balanced

theorem nesting? (h : Balanced es) (depth : Nat) : nesting? depth es = some depth := by
  induction h generalizing depth with
  | nil => rfl
  | plain _ he ih =>
      rw [nesting?_append, ih, Option.bind_some]
      exact Option.bind_eq_some_iff.mpr ⟨_, nest?_of_plain he depth, rfl⟩
  | @compound es body _ description _ ih ihbody =>
      rw [nesting?_append, ih, Option.bind_some, List.cons_append, Event.nesting?, List.foldlM_cons]
      change Event.nesting? (depth + 1) (body ++ [compoundEditEnded]) = _
      rw [nesting?_append, ihbody]
      rfl

theorem append (h : Balanced es) (h' : Balanced es') : Balanced (es ++ es') := by
  induction h' with
  | nil => exact (List.append_nil es).symm ▸ h
  | plain _ he ih =>
      rw [← List.append_assoc]
      exact .plain ih he
  | compound _ description hbody ih =>
      rw [← List.append_assoc]
      exact .compound ih description hbody

theorem of_plain (h : ∀ e ∈ es, e.isCompoundSignal = false) : Balanced es := by
  induction es with
  | nil => exact .nil
  | cons e es ih =>
      rw [List.forall_mem_cons] at h
      exact append (.plain .nil h.1) (ih h.2)

end Balanced

end Event

namespace EditTracker

/-- A tracker counts the compound edits that are open. -/
theorem depth_foldl_hear {es : List Event} (t : EditTracker) {n : Nat}
    (h : Event.nesting? t.depth es = some n) : (es.foldl hear t).depth = n := by
  induction es generalizing t with
  | nil => exact Option.some.inj h
  | cons e es ih =>
      obtain ⟨d, hd, hrest⟩ := Option.bind_eq_some_iff.mp h
      refine ih (t.hear e) ?_
      have hdepth : (t.hear e).depth = d := by
        cases e with
        | compoundEditStarted description => exact Option.some.inj hd
        | compoundEditEnded =>
            cases hopen : t.depth with
            | zero =>
                rw [hopen] at hd
                cases hd
            | succ depth =>
                rw [hopen] at hd
                obtain rfl := Option.some.inj hd
                simp [hear, hopen]
        | childInserted | childRemoved | propertyChanged | structureChanged =>
            rw [Event.nest?_of_plain rfl] at hd
            exact Option.some.inj hd
      rw [hdepth]
      exact hrest

end EditTracker

namespace Schema

variable {P : Event → Prop} {s s' s'' s₁ : Schema} {t : TableId} {e : Event} {es : List Event}
  {moved : Option (RelationshipId × Option TableId)}

/-! ## What is voiced -/

/-- Whether everything that comes to be published or held back satisfies `P`, but for what was held
back before. -/
structure Voices (P : Event → Prop) (s s' : Schema) : Prop where
  held : ∀ t, ∀ e ∈ s'.heldFor t, e ∈ s.heldFor t ∨ P e
  published : ∃ es, s'.published = s.published ++ es ∧ ∀ e ∈ es, (∃ t, e ∈ s.heldFor t) ∨ P e

namespace Voices

/-- Nothing is told where no list of events differs. -/
theorem of_same (hheld : s'.held = s.held) (hpublished : s'.published = s.published) :
    Voices P s s' where
  held t e he := by
    unfold heldFor at he ⊢
    exact .inl (hheld ▸ he)
  published := ⟨[], by rw [hpublished, List.append_nil], fun _ he => nomatch he⟩

theorem refl (s : Schema) : Voices P s s := of_same rfl rfl

theorem trans (h : Voices P s s') (h' : Voices P s' s'') : Voices P s s'' := by
  obtain ⟨es, hes, hP⟩ := h.published
  obtain ⟨es', hes', hP'⟩ := h'.published
  refine ⟨fun t e he => ?_, es ++ es', by rw [hes', hes, List.append_assoc], fun e he => ?_⟩
  · exact (h'.held t e he).elim (h.held t e) .inr
  · rcases List.mem_append.mp he with he | he
    · exact hP e he
    · exact (hP' e he).elim (fun ⟨t, ht⟩ => (h.held t e ht).imp_left fun hold => ⟨t, hold⟩) .inr

theorem imp {Q : Event → Prop} (h : Voices P s s') (hQ : ∀ e, P e → Q e) : Voices Q s s' where
  held t e he := (h.held t e he).imp_right (hQ e)
  published := by
    obtain ⟨es, hes, hP⟩ := h.published
    exact ⟨es, hes, fun e he => (hP e he).imp_right (hQ e)⟩

/-- An event after a change that leaves the lists of events alone. -/
theorem raise (he : P e) (hheld : s₁.held = s.held)
    (hpublished : s₁.published = s.published) : Voices P s (s₁.raise e) := by
  refine (of_same hheld hpublished).trans ?_
  unfold Schema.raise
  split
  · rename_i t _
    refine ⟨fun t' e' he' => ?_, [], (List.append_nil _).symm, fun _ he' => (nomatch he')⟩
    rw [heldFor_of_insert rfl] at he'
    split at he'
    · rename_i heq
      rcases List.mem_append.mp he' with he' | he'
      · exact .inl (heq ▸ he')
      · exact .inr (List.mem_singleton.mp he' ▸ he)
    · exact .inl he'
  · exact ⟨fun _ _ he' => .inl he', [e], rfl, List.forall_mem_singleton.mpr (.inr he)⟩

theorem changeTable (he : P e) (t : TableId) (f : Table → Table) (s : Schema) :
    Voices P s ((s.changeTable t f).raise e) := raise he rfl rfl

theorem of_raise (h : ∃ (s₁ : Schema) (e : Event), s' = s₁.raise e ∧ s₁.held = s.held ∧
    s₁.published = s.published ∧ P e) : Voices P s s' := by
  obtain ⟨s₁, e, rfl, hheld, hpublished, he⟩ := h
  exact raise he hheld hpublished

theorem raiseAll (hes : ∀ e ∈ es, P e) (hheld : s₁.held = s.held)
    (hpublished : s₁.published = s.published) : Voices P s (s₁.raiseAll es) := by
  refine (of_same hheld hpublished).trans ?_
  clear hheld hpublished
  induction es generalizing s₁ with
  | nil => exact refl s₁
  | cons e es ih =>
      rw [List.forall_mem_cons] at hes
      exact (raise hes.1 rfl rfl).trans (ih hes.2)

theorem held_of_erase (h : s'.held = s.held.erase t) (t' : TableId) :
    ∀ e ∈ s'.heldFor t', e ∈ s.heldFor t' := by
  intro e he
  rw [heldFor_of_erase h] at he
  split at he
  · cases he
  · exact he

theorem release (t : TableId) (s : Schema) : Voices P s (s.release t) where
  held t' e he := .inl (held_of_erase rfl t' e he)
  published := ⟨s.heldFor t, rfl, fun _ he => .inl ⟨t, he⟩⟩

theorem forget (t : TableId) (s : Schema) : Voices P s (s.forget t) where
  held t' e he := .inl (held_of_erase rfl t' e he)
  published := ⟨[], (List.append_nil _).symm, fun _ he => nomatch he⟩

end Voices

/-- Numbering a key tells of ranks of its columns. -/
theorem voices_renumber (n : Nat) (ranks : List (ColumnId × Nat))
    (hP : ∀ entry ∈ ranks, ∀ old new, P (.propertyChanged (.column entry.1) .primaryKeySeq old new))
    (s : Schema) : Voices P s (renumber n ranks s) := by
  induction ranks generalizing n s with
  | nil => exact .refl s
  | cons entry ranks ih =>
      obtain ⟨c, rank⟩ := entry
      rw [List.forall_mem_cons] at hP
      unfold renumber
      split
      · exact ih _ hP.2 _
      · exact (Voices.raise (hP.1 _ _) (by rfl) (by rfl)).trans (ih _ hP.2 _)

theorem voices_unmapWhere (p : Mapping → Bool) (r : RelationshipId)
    (hP : ∀ m i, P (.childRemoved (.relationship r) (.mapping m) i)) (s : Schema) :
    Voices P s (s.unmapWhere p r) := by
  unfold unmapWhere
  split
  · exact .refl s
  · refine Voices.raiseAll (fun e he => ?_) rfl rfl
    obtain ⟨⟨i, m⟩, -, rfl⟩ := List.mem_map.mp he
    exact hP m i

theorem voices_clearMappings (r : RelationshipId)
    (hP : ∀ m i, P (.childRemoved (.relationship r) (.mapping m) i)) (s : Schema) :
    Voices P s (s.clearMappings r) := by
  unfold clearMappings
  split
  · exact .refl s
  · refine Voices.raiseAll (fun e he => ?_) rfl rfl
    obtain ⟨⟨m, i⟩, -, rfl⟩ := List.mem_map.mp he
    exact hP m i

theorem voices_syncMappingOrder (r : RelationshipId) (hP : P (.structureChanged (.relationship r)))
    (s : Schema) : Voices P s (s.syncMappingOrder r) := by
  unfold syncMappingOrder
  split
  · exact .refl s
  · dsimp only
    split
    · exact .refl s
    · exact Voices.raise hP rfl rfl

/-- A column that moves within its table is told to be taken out and put in again. -/
theorem voices_relocated {c : ColumnId} {i index : Nat}
    (hout : P (.childRemoved (.table t) (.column c) i))
    (hin : P (.childInserted (.table t) (.column c) index)) (s : Schema) :
    Voices P s (s.relocated t c i index) :=
  (Voices.changeTable hout t _ s).trans (.changeTable hin t _ _)

/-- Single changes send no signal. -/
theorem Change.voices (h : Change moved s s') :
    Voices (fun e => e.isCompoundSignal = false) s s' := by
  cases h
  case setMagic | suspend | eraseRelationship => exact .of_same rfl rfl
  case resume t tbl htbl =>
    have hleft : Voices (fun e => e.isCompoundSignal = false) s (s.setSecondaryChange t false) :=
      .of_same rfl rfl
    exact hleft.trans (.release t _)
  case forget t ht => exact .forget t s
  case renumber t placed => exact voices_renumber 0 _ (fun _ _ _ _ => rfl) s
  case unmapWhere p r => exact voices_unmapWhere p r (fun _ _ => rfl) s
  case clearMappings r => exact voices_clearMappings r (fun _ _ => rfl) s
  case syncMappingOrder r =>
    exact voices_syncMappingOrder (P := fun e => e.isCompoundSignal = false) r rfl s
  case appendTable tbl =>
    unfold Schema.appendTable
    exact Voices.raise (by rfl) rfl rfl
  case placeColumn t tbl htbl i hi col =>
    unfold Schema.placeColumn
    exact Voices.raise (by rfl) rfl rfl
  -- all other changes are told by one event
  all_goals
    refine .of_raise ⟨_, _, rfl, ?_, ?_, ?_⟩
    all_goals rfl

/-- Whether no signal is held back. -/
def Silent (s : Schema) : Prop := ∀ t, ∀ e ∈ s.heldFor t, e.isCompoundSignal = false

theorem silent_ofConfig (config : Config) : (ofConfig config).Silent := fun _ _ he => nomatch he

theorem Silent.voices (hs : s.Silent) (h : Voices (fun e => e.isCompoundSignal = false) s s') :
    s'.Silent := fun t e he => (h.held t e he).elim (hs t e) id

theorem Silent.signal (hs : s.Silent) (e : Event) : (s.signal e).Silent := hs

/-- Whether what was published between two schemas is balanced. -/
def Pairs (s s' : Schema) : Prop := ∃ es, s'.published = s.published ++ es ∧ Event.Balanced es

theorem Voices.pairs (h : Voices (fun e => e.isCompoundSignal = false) s s') (hs : s.Silent) :
    Pairs s s' := by
  obtain ⟨es, hes, hplain⟩ := h.published
  exact ⟨es, hes, .of_plain fun e he => (hplain e he).elim (fun ⟨t, ht⟩ => hs t e ht) id⟩

theorem Pairs.trans (h : Pairs s s') (h' : Pairs s' s'') : Pairs s s'' := by
  obtain ⟨es, hes, hbalanced⟩ := h
  obtain ⟨es', hes', hbalanced'⟩ := h'
  exact ⟨es ++ es', by rw [hes', hes, List.append_assoc], hbalanced.append hbalanced'⟩

/-- A compound edit sends its two signals around what its body publishes. -/
theorem Pairs.compound {description : String}
    (h : Pairs (s.signal (.compoundEditStarted description)) s') :
    Pairs s (s'.signal .compoundEditEnded) := by
  obtain ⟨body, hbody, hbalanced⟩ := h
  refine ⟨.compoundEditStarted description :: body ++ [.compoundEditEnded], ?_,
    .compound .nil description hbalanced⟩
  change s'.published ++ [.compoundEditEnded] = _
  rw [hbody]
  change s.published ++ [.compoundEditStarted description] ++ body ++ [.compoundEditEnded] = _
  simp

/-- What a series of changes publishes is balanced. -/
theorem Changes.pairs (h : Changes moved s s') (hs : s.Silent) : s'.Silent ∧ Pairs s s' := by
  induction h with
  | refl => exact ⟨hs, [], (List.append_nil _).symm, .nil⟩
  | tail _ hlast ih =>
      obtain ⟨hs', hpairs⟩ := ih hs
      exact ⟨hs'.voices hlast.voices, hpairs.trans (hlast.voices.pairs hs')⟩
  | compound _ description _ ih ihbody =>
      obtain ⟨hs', hpairs⟩ := ih hs
      obtain ⟨hs'', hbody⟩ := ihbody (hs'.signal _)
      exact ⟨hs''.signal _, hpairs.trans hbody.compound⟩

end Schema

/-! ## Operations -/

namespace Op

open Schema

variable {s : Schema}

/-- A column that moves within its table sends no signal. -/
theorem voices_moveColumn (c : ColumnId) (index : Nat) (s : Schema) :
    Voices (fun e => e.isCompoundSignal = false) s ((moveColumn c index).perform s).2 := by
  refine perform_of_ends (P := Voices (fun e => e.isCompoundSignal = false) s) rfl
    (Edit.ends_moveColumn (.refl s) fun t tbl i _ _ _ _ => ?_)
  have hmove : Voices (fun e => e.isCompoundSignal = false) s (s.relocated t c i index) :=
    voices_relocated (by rfl) (by rfl) s
  exact ⟨hmove, Edit.normalizeKey_keeps hmove (hmove.trans (voices_renumber 0 _ (fun _ _ _ _ => rfl) _))
    fun r s' h => h.trans (voices_syncMappingOrder r (by rfl) s')⟩

/-- What an operation publishes is balanced, whether it is refused or not. -/
theorem pairs_perform (op : Op) (hs : s.Silent) :
    (op.perform s).2.Silent ∧ Pairs s (op.perform s).2 := by
  by_cases hmove : ∃ c index, op = .moveColumn c index
  · obtain ⟨c, index, rfl⟩ := hmove
    have h := voices_moveColumn c index s
    exact ⟨hs.voices h, h.pairs hs⟩
  by_cases hcreate : ∃ rel, op = .createRelationship rel
  · obtain ⟨rel, rfl⟩ := hcreate
    have h : Voices (fun e => e.isCompoundSignal = false) s
        ((createRelationship rel).perform s).2 := by
      rcases perform_createRelationship rel s with h | h
      · rw [h]
        exact .of_same rfl rfl
      · rw [h.same]
        exact .of_same rfl rfl
    exact ⟨hs.voices h, h.pairs hs⟩
  · exact (Edit.Passes.changes (passes_edit op (fun c index h => hmove ⟨c, index, h⟩)
      (fun rel h => hcreate ⟨rel, h⟩) op.allows_moved? s)).pairs hs

end Op

/-! ## Runs -/

/-- Whether the scope is a compound edit. -/
def OpenScope.isCompound : OpenScope → Bool
  | compound => true
  | secondaryChange .. | magicDisabled .. => false

theorem OpenScope.isCompound_iff {opened : OpenScope} :
    opened.isCompound = true ↔ opened = .compound := by
  cases opened <;> simp [isCompound]

namespace Moment

open Schema

variable {m : Moment}

/-- How many compound edits are open. -/
def openEdits (m : Moment) : Nat := m.scopes.countP OpenScope.isCompound

/-- Whether the compound edits that were published as opened but not as closed are those whose scopes
are open. -/
structure Nested (m : Moment) : Prop where
  silent : m.schema.Silent
  nesting : Event.nesting? 0 m.schema.published = some m.openEdits

/-- What publishes a balanced series of events leaves as many compound edits open. -/
theorem Nested.of_pairs {m' : Moment} (h : m.Nested) (hs : m'.schema.Silent ∧ Pairs m.schema m'.schema)
    (hopen : m'.openEdits = m.openEdits) : m'.Nested where
  silent := hs.1
  nesting := by
    obtain ⟨es, hes, hbalanced⟩ := hs.2
    rw [hes, Event.nesting?_append, h.nesting, Option.bind_some, hbalanced.nesting?, hopen]

/-- A scope that is no compound edit is opened as such. -/
theorem openEdits_after_enter {scope : Scope} (hscope : ∀ description, scope ≠ .compound description) :
    (m.after (.enter scope)).openEdits = m.openEdits := by
  have hopened : (Edit.enter scope).Ends (fun opened _ => opened.isCompound = false)
      (fun _ _ => True) m.schema := by
    unfold Edit.enter
    cases scope with
    | compound description => exact absurd rfl (hscope description)
    | secondaryChange t =>
        rw [Edit.ends_bind]
        have hpasses : (Edit.enterSecondaryChange t).Passes none m.schema :=
          Edit.passes_enterSecondaryChange t (by simp) m.schema
        exact hpasses.mono (fun _ _ _ => rfl) fun _ _ _ => trivial
    | magicDisabled t =>
        simp only [Edit.ends_bind, Edit.ends_table]
        exact ⟨fun _ _ => rfl, fun _ => trivial⟩
  unfold after
  dsimp only
  split
  · rename_i opened s' hp
    exact List.countP_cons_of_neg (by simp [Edit.Ends.of_ok hopened hp])
  · rfl

/-- A move opens or closes at most one compound edit, and that only with its scope. -/
theorem Nested.after (h : m.Nested) (move : Move) : (m.after move).Nested := by
  cases move with
  | edit op => exact h.of_pairs (op.pairs_perform h.silent) rfl
  | enter scope =>
      by_cases hcompound : ∃ description, scope = .compound description
      · obtain ⟨description, rfl⟩ := hcompound
        refine ⟨h.silent.signal _, ?_⟩
        change Event.nesting? 0 (m.schema.published ++ [.compoundEditStarted description]) =
          some (List.countP _ (OpenScope.compound :: m.scopes))
        rw [Event.nesting?_append, h.nesting, List.countP_cons_of_pos rfl]
        rfl
      · have hscope : ∀ description, scope ≠ .compound description := fun description heq =>
          hcompound ⟨description, heq⟩
        refine h.of_pairs ?_ (openEdits_after_enter hscope)
        rw [schema_after_enter]
        have hpasses : (Edit.enter scope).Passes none m.schema :=
          Edit.passes_enter hscope (by simp) m.schema
        exact hpasses.changes.pairs h.silent
  | leave =>
      obtain ⟨s, scopes⟩ := m
      cases scopes with
      | nil => exact h
      | cons opened outer =>
          by_cases hcompound : opened = .compound
          · -- the end that is sent closes the innermost compound edit
            subst hcompound
            refine ⟨h.silent.signal _, ?_⟩
            have hopen : openEdits ⟨s, .compound :: outer⟩ = outer.countP OpenScope.isCompound + 1 :=
              List.countP_cons_of_pos rfl
            change Event.nesting? 0 (s.published ++ [.compoundEditEnded]) = _
            rw [Event.nesting?_append, h.nesting, hopen]
            rfl
          · have hpasses : (Edit.leave opened).Passes none s := Edit.passes_leave hcompound s
            refine h.of_pairs (hpasses.changes.pairs h.silent) ?_
            exact (List.countP_cons_of_neg (mt OpenScope.isCompound_iff.mp hcompound)).symm

theorem nested_run (config : Config) (moves : List Move) : ((start config).run moves).Nested := by
  have hstart : (start config).Nested := ⟨silent_ofConfig config, rfl⟩
  generalize start config = m at hstart
  induction moves generalizing m with
  | nil => exact hstart
  | cons move moves ih => exact ih _ (hstart.after move)

end Moment

end KeyedSchema
