import KeyedSchema.Proofs.Agreement
import KeyedSchema.Proofs.Switches

/-!
# Restoring — scopes leave the switches of tables as they found them

A `Body` is what a client does between the two ends of a scope: operations that are no toggles, and
further scopes on any tables, the table of the outer scope among them. Every step may depend on what
came of the ones before. However a body goes on after a refusal, each scope in it is closed, and what
opening it did to the switches is undone: `Edit.enter_undoes` says so for one scope and
`Body.keepsSwitches` for everything that is done in it.

A body is a run of moves that closes every scope it opens, so what holds of runs holds of bodies.
-/

namespace KeyedSchema

/-! ## Scopes -/

/-- Whether closing a scope undoes what opening it did to the switches, whatever was done in between
as long as it kept them. -/
def OpenScope.Undoes (opened : OpenScope) (s s₁ : Schema) : Prop :=
  ∀ s₂ : Schema, s₂.Sound → s₁.KeepsSwitches s₂ →
    s.KeepsSwitches ((Edit.leave opened).perform s₂).2

namespace Edit

open Schema

variable {s : Schema} {t : TableId}

/-- The scope that put a table into the mode takes it out, also when catching up stops halfway. -/
theorem undoes_secondaryChange (hout : s.isHolding t = false) :
    (OpenScope.secondaryChange t true).Undoes s (s.setSecondaryChange t true) := by
  intro s₂ hs₂ hkept
  have hframe : SameFrame (s₂.settled t) ((exitSecondaryChange t).perform s₂).2 :=
    Ends.left (x := exitSecondaryChange t) (P := SameFrame (s₂.settled t)) <|
      (exitSecondaryChange_ends hs₂ t).mono (fun _ _ h => h.sameFrame hs₂) fun _ _ h => h.frame
  have hlast := Nat.le_trans hkept.lastTable (Nat.le_of_eq hframe.lastTable.symm)
  exact .of_settled hout hlast hkept.switchesOf hframe.switchesOf

/-- The scope that switched magic off brings back what it found. -/
theorem undoes_magicDisabled {tbl : Table} (htbl : s.tables.get? t = some tbl) :
    (OpenScope.magicDisabled t tbl.magicEnabled).Undoes s (s.setMagic t false) := by
  intro s₂ _ hkept
  refine ⟨hkept.lastTable, fun t' ht' => ?_⟩
  change (s₂.setMagic t tbl.magicEnabled).switchesOf t' = none ∨
    (s₂.setMagic t tbl.magicEnabled).switchesOf t' = s.switchesOf t'
  have hkept' := hkept.switchesOf t' ht'
  rw [switchesOf_setMagic] at hkept' ⊢
  by_cases heq : t' = t
  · subst heq
    rw [if_pos rfl] at hkept' ⊢
    rcases hkept' with hgone | hsame
    · exact .inl (by rw [hgone]; rfl)
    · right
      have hswitches : s.switchesOf t' = some tbl.switches := by
        unfold switchesOf
        rw [htbl]
        rfl
      rw [hsame, hswitches]
      rfl
  · rw [if_neg heq] at hkept' ⊢
    exact hkept'

/-- Every scope that opens can be undone, and one that does not open has done nothing. -/
theorem enter_undoes (s : Schema) (scope : Scope) :
    (enter scope).Ends (fun opened s₁ => opened.Undoes s s₁) (fun _ s₁ => s.KeepsSwitches s₁) s := by
  cases scope with
  | compound description =>
      intro s₂ _ hkept
      have hopens := (SameObjects.signal (.compoundEditStarted description) s).keepsSwitches
      exact (hopens.trans hkept).trans (SameObjects.signal .compoundEditEnded s₂).keepsSwitches
  | secondaryChange t =>
      unfold enter
      simp only [ends_bind, ends_pure]
      cases ht : s.tables.contains t with
      | false =>
          have hnone := (Roster.contains_eq_false_iff _ _).mp ht
          unfold enterSecondaryChange
          simp only [ends_bind, ends_table, hnone]
          exact ⟨fun _ h => by simp at h, fun _ => .refl s⟩
      | true =>
          refine (enterSecondaryChange_ends ht).total ?_
          rintro entered s₁ ⟨rfl, rfl⟩
          cases hin : s.isHolding t with
          | true =>
              -- the table is in the mode anyway, and stays in it
              intro s₂ _ hkept
              rw [suspended, if_pos hin] at hkept
              exact hkept
          | false =>
              rw [suspended, if_neg (Bool.eq_false_iff.mp hin)]
              exact undoes_secondaryChange hin
  | magicDisabled t =>
      unfold enter
      simp only [ends_bind, ends_table, ends_change, ends_pure]
      exact ⟨fun tbl htbl => undoes_magicDisabled htbl, fun _ => .refl s⟩

end Edit

/-! ## Bodies -/

/-- What a client does in a scope. What comes next may depend on the schema and on what came of the
step before, refusals included. -/
inductive Body
  /-- Nothing more is done; a refusal is passed on. -/
  | stop (outcome : Except EditError Unit)
  | edit (op : Op) (hop : op.isToggle = false) (next : Except EditError Reply → Schema → Body)
  /-- A scope with a body of its own: `next` is given the refusal to open it, or what came of the body
  and of closing the scope. -/
  | scope (scope : Scope) (body : Body)
      (next : Except EditError (Except EditError Unit × Except EditError Unit) → Schema → Body)

namespace Body

open Schema

variable {s : Schema}

/-- Carry out a body. A scope that has been opened is closed, whatever came of what is in it. -/
def perform : Body → Schema → Except EditError Unit × Schema
  | .stop outcome, s => (outcome, s)
  | .edit op _ next, s =>
      let (reply, s₁) := op.perform s
      (next reply s₁).perform s₁
  | .scope sc body next, s =>
      match (Edit.enter sc).perform s with
      | (.error e, s₁) => (next (.error e) s₁).perform s₁
      | (.ok opened, s₁) =>
          let (outcome, s₂) := body.perform s₁
          let (closing, s₃) := (Edit.leave opened).perform s₂
          (next (.ok (outcome, closing)) s₃).perform s₃

/-- A body as an edit. -/
def carryOut (b : Body) : Edit Unit := ExceptT.mk b.perform

/-- The body that does one thing within a scope and passes on what comes of it. -/
def within (sc : Scope) (body : Body) : Body :=
  .scope sc body fun ends _ => .stop <|
    match ends with
    | .error e => .error e
    | .ok (outcome, closing) => Edit.settle outcome closing

/-- Doing something within a scope is the edit of that name. -/
theorem perform_within (sc : Scope) (body : Body) (s : Schema) :
    (within sc body).perform s = (Edit.within sc body.carryOut).perform s := by
  unfold within Edit.within
  simp only [perform, Edit.perform_bind]
  rcases (Edit.enter sc).perform s with ⟨e | opened, s₁⟩
  · rfl
  · rfl

/-- A body is a run of moves that closes every scope it opens. -/
theorem exists_moves (b : Body) : ∀ (s : Schema) (outer : List OpenScope),
    ∃ moves, (⟨s, outer⟩ : Moment).run moves = ⟨(b.perform s).2, outer⟩ := by
  induction b with
  | stop outcome => exact fun s outer => ⟨[], rfl⟩
  | edit op hop next ih =>
      intro s outer
      obtain ⟨moves, hmoves⟩ := ih (op.perform s).1 (op.perform s).2 (op.perform s).2 outer
      exact ⟨.edit op :: moves, hmoves⟩
  | scope sc body next ihbody ih =>
      intro s outer
      unfold perform
      rcases henter : (Edit.enter sc).perform s with ⟨e | opened, s₁⟩
      · obtain ⟨moves, hmoves⟩ := ih (.error e) s₁ s₁ outer
        refine ⟨.enter sc :: moves, ?_⟩
        rw [Moment.run_cons, Moment.after, henter]
        exact hmoves
      · obtain ⟨inner, hinner⟩ := ihbody s₁ (opened :: outer)
        obtain ⟨moves, hmoves⟩ := ih (.ok ((body.perform s₁).1, ((Edit.leave opened).perform
          (body.perform s₁).2).1)) _ ((Edit.leave opened).perform (body.perform s₁).2).2 outer
        refine ⟨.enter sc :: inner ++ .leave :: moves, ?_⟩
        rw [List.cons_append, Moment.run_cons, Moment.run_append, Moment.run_cons, Moment.after, henter]
        dsimp only
        rw [hinner]
        exact hmoves

/-- Whatever a body does keeps the switches. -/
theorem keepsSwitches (b : Body) (hs : s.Sound) :
    (b.perform s).2.Sound ∧ s.KeepsSwitches (b.perform s).2 := by
  induction b generalizing s with
  | stop outcome => exact ⟨hs, .refl s⟩
  | edit op hop next ih =>
      have hkept : s.KeepsSwitches (op.perform s).2 := Edit.Ends.left (Op.steady_edit hs hop)
      have hnext := ih (op.perform s).1 (op.perform s).2 (Op.sound_perform hs op)
      exact ⟨hnext.1, hkept.trans hnext.2⟩
  | scope sc body next ihbody ih =>
      have hundoes := Edit.enter_undoes s sc
      unfold perform
      rcases henter : (Edit.enter sc).perform s with ⟨e | opened, s₁⟩
      all_goals
        have hs₁ := Edit.sound_enter hs sc
        rw [henter] at hs₁
      · have hkept : s.KeepsSwitches s₁ := hundoes.of_error henter
        have hnext := ih (.error e) s₁ hs₁
        exact ⟨hnext.1, hkept.trans hnext.2⟩
      · have hbody := ihbody hs₁
        have hclosed := hundoes.of_ok henter _ hbody.1 hbody.2
        have hs₃ := Edit.sound_leave hbody.1 opened
        have hnext := ih (.ok ((body.perform s₁).1, ((Edit.leave opened).perform
          (body.perform s₁).2).1)) ((Edit.leave opened).perform (body.perform s₁).2).2 hs₃
        exact ⟨hnext.1, hclosed.trans hnext.2⟩

/-- However operations that are no toggles are put into scopes, and whatever is refused on the way, in
a body, by opening a scope or by the catching up when one is closed: every table that was there
before and still is has the switches that it had. -/
theorem restores_switches (h : s.Reachable) (b : Body) {t : TableId} {tbl tbl' : Table}
    (hbefore : s.tables.get? t = some tbl) (hafter : (b.perform s).2.tables.get? t = some tbl') :
    tbl'.inSecondaryChange = tbl.inSecondaryChange ∧ tbl'.magicEnabled = tbl.magicEnabled := by
  have hs := h.sound
  have hfresh := hs.table_fresh t (Roster.contains_of_get? hbefore)
  have hswitches : some tbl'.switches = none ∨ some tbl'.switches = some tbl.switches := by
    have hkept := (b.keepsSwitches hs).2.switchesOf t hfresh
    unfold switchesOf at hkept
    rwa [hbefore, hafter] at hkept
  have hsame : tbl'.switches = tbl.switches := by
    rcases hswitches with hgone | hsame
    · exact absurd hgone (Option.some_ne_none _)
    · exact Option.some.inj hsame
  exact ⟨congrArg Prod.snd hsame, congrArg Prod.fst hsame⟩

/-- A table that maps its key column to another of its columns, and a table besides. -/
def guardedMoves : List Move :=
  [.edit (.addTable { name := "a" }),
    .edit (.addColumn ⟨1⟩ { name := "id", rank := some 0 }),
    .edit (.createRelationship { name := "aa" }),
    .edit (.attachRelationship ⟨1⟩ ⟨1⟩ ⟨1⟩ true),
    .edit (.addTable { name := "b" })]

/-- The second table goes in its own scope. In a scope of the first one the mapped column takes the
place of the key column, after which catching up is refused. -/
def guardedBody : Body :=
  .within (.magicDisabled ⟨2⟩) <| .within (.secondaryChange ⟨1⟩) <|
    .edit (.removeTable ⟨2⟩) rfl fun _ _ =>
    .edit (.setPrimaryKeySeq ⟨2⟩ (some 0)) rfl fun _ _ =>
    .edit (.setPrimaryKeySeq ⟨1⟩ none) rfl fun _ _ =>
    .stop (.ok ())

/-- Closing the scope is refused, and yet the table is out of the mode, as it was. -/
theorem restores_switches_refused : ∃ (s : Schema) (tbl tbl' : Table), s.Reachable ∧
    s.tables.get? ⟨1⟩ = some tbl ∧ (guardedBody.perform s).2.tables.get? ⟨1⟩ = some tbl' ∧
    (guardedBody.perform s).1 = .error (.unknownColumn ⟨2⟩) ∧
    tbl'.inSecondaryChange = tbl.inSecondaryChange ∧ tbl'.magicEnabled = tbl.magicEnabled := by
  have hreach : Schema.Reachable ((Moment.start {}).run guardedMoves).schema :=
    ⟨{}, guardedMoves, rfl⟩
  obtain ⟨tbl, tbl', hbefore, hafter, hrefused⟩ : ∃ tbl tbl',
      ((Moment.start {}).run guardedMoves).schema.tables.get? ⟨1⟩ = some tbl ∧
      (guardedBody.perform ((Moment.start {}).run guardedMoves).schema).2.tables.get? ⟨1⟩ = some tbl' ∧
      (guardedBody.perform ((Moment.start {}).run guardedMoves).schema).1 =
        .error (.unknownColumn ⟨2⟩) := ⟨_, _, rfl, rfl, rfl⟩
  exact ⟨_, tbl, tbl', hreach, hbefore, hafter, hrefused,
    restores_switches hreach guardedBody hbefore hafter⟩

end Body

end KeyedSchema
