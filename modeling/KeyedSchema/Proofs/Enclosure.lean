import KeyedSchema.Proofs.Covering
import KeyedSchema.Proofs.Ordering

/-!
# Enclosure — what a listener hears between the signals

The compound edits that a listener to everything has heard opened but not closed are the open ones,
so a tracker reads how many there are. And what an operation changes in the columns of a table that it
was not given is heard while a compound edit is open: an operation that reaches such a table makes
all its changes in a compound edit of its own, whose signals come around whatever it publishes.
-/

namespace KeyedSchema

namespace Event

variable {P : Event → Prop} {es body before after : List Event} {e : Event} {description : String}

/-- Whether the events of a series satisfy `P`, except for those in a compound edit. -/
def Enclosing (P : Event → Prop) (es : List Event) : Prop :=
  ∀ before e after, es = before ++ e :: after → P e ∨ ∃ depth, nesting? 0 before = some (depth + 1)

theorem enclosing_of_forall (h : ∀ e ∈ es, P e) : Enclosing P es := by
  rintro before e after rfl
  exact .inl (h e (by simp))

/-- The compound edits that a series opens but does not close are open in the middle of it, too. -/
theorem nesting?_of_append {n : Nat} (h : nesting? 0 (before ++ after) = some n) :
    ∃ depth, nesting? 0 before = some depth := by
  rw [nesting?_append] at h
  obtain ⟨depth, hdepth, -⟩ := Option.bind_eq_some_iff.mp h
  exact ⟨depth, hdepth⟩

/-- What is published between the signals of a compound edit is enclosed by them. -/
theorem enclosing_compound (hes : ∀ e ∈ es, P e) (hplain : ∀ e ∈ es, e.isCompoundSignal = false)
    (hstart : P (compoundEditStarted description)) (hbody : Balanced body) :
    Enclosing P (es ++ compoundEditStarted description :: (body ++ [compoundEditEnded])) := by
  intro before e after h
  rcases List.append_eq_append_iff.mp h with ⟨inner, rfl, hinner⟩ | ⟨more, rfl, hmore⟩
  · cases inner with
    | nil =>
        obtain ⟨rfl, -⟩ := List.cons.inj hinner
        exact .inl hstart
    | cons first inner =>
        -- what comes between the first signal and the event is a part of the body
        obtain ⟨rfl, hmiddle : body ++ [compoundEditEnded] = inner ++ e :: after⟩ :=
          List.cons.inj hinner
        have hpart : inner <+: body := by
          refine List.prefix_of_prefix_length_le ⟨e :: after, hmiddle.symm⟩ (List.prefix_append _ _) ?_
          have := congrArg List.length hmiddle
          simp only [List.length_append, List.length_cons, List.length_nil] at this
          omega
        obtain ⟨rest, rfl⟩ := hpart
        obtain ⟨depth, hdepth⟩ := nesting?_of_append (hbody.nesting? 0)
        refine .inr ⟨depth, ?_⟩
        rw [nesting?_append, (Balanced.of_plain hplain).nesting?, Option.bind_some]
        exact nesting?_add hdepth 1
  · cases more with
    | nil =>
        obtain ⟨rfl, -⟩ := List.cons.inj hmore
        exact .inl hstart
    | cons e' more =>
        obtain ⟨rfl, -⟩ := List.cons.inj hmore
        exact .inl (hes e (by simp))

end Event

namespace Schema

variable {moved : Option (RelationshipId × Option TableId)} {ts : List TableId} {s s' : Schema}
  {t : TableId} {e : Event}

/-! ## Tables in secondary-change mode -/

theorem Effects.isHolding {r : RelationshipId} {new : Option TableId} (h : Effects (some (r, new)) s s')
    (ht : s'.isHolding t = true) : s.isHolding t = true ∨ new = some t := by
  induction h with
  | refl => exact .inl ht
  | tail _ hlast ih => exact (hlast.isHolding ht).elim ih .inr

theorem concerns_of_columnTable? (h : s.columnTable? e = some t) : s.concerns t e = true := by
  rw [concerns_iff]
  unfold columnTable? at h
  split at h
  · obtain rfl := Option.some.inj h
    exact .inl rfl
  · obtain rfl := Option.some.inj h
    exact .inl rfl
  · exact .inr (.inl ⟨_, rfl, h⟩)
  · cases h

/-- An event about a column has a table, if the column was put in. -/
theorem exists_columnTable? (hs : s.Tidy) (hh : s.Homed) (he : e ∈ s.raised)
    (hcol : e.isOfColumn = true) : ∃ t, s.columnTable? e = some t := by
  unfold Event.isOfColumn at hcol
  split at hcol
  · exact ⟨_, rfl⟩
  · exact ⟨_, rfl⟩
  · exact hh _ (hs.sourced _ he _ rfl)
  · cases hcol

/-- While only given tables are in the mode, all events about columns that wait are about theirs. -/
theorem Owes.keepsTo (ho : s.Owes) (hs : s.Tidy) (hh : s.Homed)
    (hmode : ∀ t, s.isHolding t = true → t ∈ ts) (he : e ∈ s.heldFor t) : s.KeepsTo ts e := by
  intro hcol
  have hraised : e ∈ s.raised := ho.total.mem_iff.mpr (List.mem_append_right _
    ((Roster.perm_flatten ho.held_nodup t).mem_iff.mpr (List.mem_append_left _ he)))
  obtain ⟨t', ht'⟩ := exists_columnTable? hs hh hraised hcol
  obtain rfl := (ho.own t e he).2 t' (concerns_of_columnTable? ht')
  exact ⟨t', hmode t' (ho.holding t' (List.ne_nil_of_mem he)), ht'⟩

/-- What a change publishes that covers its cascades. -/
theorem Covers.published (h : Covers ts s s') (hhomes : KeepsHomes s s') (hsilent : s.Silent)
    (hheld : ∀ t, ∀ e ∈ s.heldFor t, s.KeepsTo ts e) :
    ∃ es, s'.published = s.published ++ es ∧ Event.Enclosing (s'.KeepsTo ts) es := by
  have hwaiting : ∀ t, ∀ e ∈ s.heldFor t, s'.Confined ts e := fun t e he =>
    Confined.keeps ⟨hsilent t e he, hheld t e he⟩ hhomes
  cases h with
  | within h =>
      obtain ⟨es, hes, htold⟩ := h.voices.published
      refine ⟨es, hes, Event.enclosing_of_forall fun e he => ?_⟩
      exact ((htold e he).elim (fun ⟨t, ht⟩ => hwaiting t e ht) id).table
  | @compound moved s₁ s₂ h description hbody hend =>
      obtain ⟨es, hes, htold⟩ := h.published
      have hconfined : ∀ e ∈ es, s'.Confined ts e := fun e he =>
        (htold e he).elim (fun ⟨t, ht⟩ => hwaiting t e ht) confined_of_aside
      have hsilent₁ : s₁.Silent := fun t e he => (h.held t e he).elim (hsilent t e) fun haside =>
        (confined_of_aside haside : s₁.Confined ts e).plain
      obtain ⟨-, body, hbody, hbalanced⟩ := hbody.pairs (hsilent₁.signal (.compoundEditStarted description))
      refine ⟨es ++ .compoundEditStarted description :: (body ++ [.compoundEditEnded]), ?_,
        Event.enclosing_compound (fun e he => (hconfined e he).table) (fun e he => (hconfined e he).plain)
          (fun hcol => nomatch hcol) hbalanced⟩
      subst hend
      change s₂.published ++ [.compoundEditEnded] = _
      rw [hbody]
      change s₁.published ++ [.compoundEditStarted description] ++ body ++ [.compoundEditEnded] = _
      rw [hes]
      simp

end Schema

/-! ## Operations and scopes -/

/-- The table that a scope is about. -/
def Scope.table? : Scope → Option TableId
  | compound _ => none
  | secondaryChange t | magicDisabled t => some t

/-- The table that an open scope is about. -/
def OpenScope.table? : OpenScope → Option TableId
  | compound => none
  | secondaryChange t _ | magicDisabled t _ => some t

/-- The tables that a move is given. -/
def Move.given (m : Moment) : Move → List TableId
  | edit op => op.given m.schema
  | enter scope => scope.table?.toList
  | leave => (m.scopes.head?.bind OpenScope.table?).toList

namespace Op

open Schema

variable {s : Schema} {t : TableId}

/-- What an operation needs room for is among what it is given. -/
theorem exists_allows (op : Op) (s : Schema) :
    ∃ r new, op.Allows (some (r, new)) ∧ ∀ t, new = some t → t ∈ op.given s := by
  cases op
  case setChild r t => exact ⟨r, t, rfl, fun u h => by simp [given, h]⟩
  case attachRelationship r parent child auto =>
    exact ⟨r, some child, rfl, fun u h => by simp [given, Option.some.inj h]⟩
  case setSecondaryChangeMode t on =>
    refine ⟨⟨0⟩, some t, ?_, fun u h => by simp [given, Option.some.inj h]⟩
    rintro - _ _ ⟨⟩
    rfl
  all_goals exact ⟨⟨0⟩, none, trivial, nofun⟩

/-- An operation puts no table into secondary-change mode for good but one that it is given. -/
theorem isHolding_perform (op : Op) (hs : s.Tidy) (ht : (op.perform s).2.isHolding t = true) :
    s.isHolding t = true ∨ t ∈ op.given s := by
  by_cases hcreate : ∃ rel, op = .createRelationship rel
  · obtain ⟨rel, rfl⟩ := hcreate
    have htables : ((createRelationship rel).perform s).2.tables = s.tables := by
      rcases perform_createRelationship rel s with h | h
      · rw [h]
        rfl
      · rw [h.same]
    exact .inl ((isHolding_congr htables t).symm.trans ht)
  -- every other operation is a series of effects that enter the mode for a given table at most
  have heffects : ∃ r new, Effects (some (r, new)) s (op.perform s).2 ∧
      ∀ t, new = some t → t ∈ op.given s := by
    by_cases hmove : ∃ c index, op = .moveColumn c index
    · obtain ⟨c, index, rfl⟩ := hmove
      exact ⟨⟨0⟩, none, perform_of_ends (P := Effects (some (⟨0⟩, none)) s) rfl
        (Edit.moveColumn_effects hs c index), nofun⟩
    · obtain ⟨r, new, hallows, hnew⟩ := op.exists_allows s
      have hchanges := (passes_edit op (fun c index h => hmove ⟨c, index, h⟩)
        (fun rel h => hcreate ⟨rel, h⟩) hallows s).changes
      exact ⟨r, new, hchanges.effects hs, hnew⟩
  obtain ⟨r, new, h, hnew⟩ := heffects
  exact (h.isHolding ht).imp_right (hnew t)

end Op

namespace Moment

open Schema

variable {m : Moment} {t : TableId}

theorem isHolding_after (hs : m.schema.Tidy) (move : Move)
    (ht : (m.after move).schema.isHolding t = true) :
    m.schema.isHolding t = true ∨ t ∈ move.given m := by
  cases move with
  | edit op => exact op.isHolding_perform hs ht
  | enter scope =>
      rw [schema_after_enter] at ht
      by_cases hcompound : ∃ description, scope = .compound description
      · obtain ⟨description, rfl⟩ := hcompound
        exact .inl ht
      · have hscope : ∀ description, scope ≠ .compound description := fun description h =>
          hcompound ⟨description, h⟩
        have hmoved : ∀ t, scope = .secondaryChange t → ∀ r new,
            some ((⟨0⟩ : RelationshipId), scope.table?) = some (r, new) → new = some t := by
          rintro t rfl r new ⟨⟩
          rfl
        have hchanges := (Edit.passes_enter hscope hmoved m.schema).changes
        exact ((hchanges.effects hs).isHolding ht).imp_right fun h => by simp [Move.given, h]
  | leave =>
      obtain ⟨s, scopes⟩ := m
      cases scopes with
      | nil => exact .inl ht
      | cons opened outer =>
          by_cases hcompound : opened = .compound
          · subst hcompound
            exact .inl ht
          · have hpasses : (Edit.leave opened).Passes (some (⟨0⟩, none)) s :=
              Edit.passes_leave hcompound s
            exact ((hpasses.changes.effects hs).isHolding ht).imp_right nofun

/-- Every move covers its cascades, unless it is the signal of a compound edit. -/
theorem covers_after (hs : m.schema.Sound) (ht : m.schema.Tidy) (move : Move) :
    Covers (move.given m) m.schema (m.after move).schema ∨
      ∃ e, e.isCompoundSignal = true ∧ (m.after move).schema = m.schema.signal e := by
  cases move with
  | edit op => exact .inl (Edit.Ends.left (op.encloses_edit hs ht))
  | enter scope =>
      rw [schema_after_enter]
      by_cases hcompound : ∃ description, scope = .compound description
      · obtain ⟨description, rfl⟩ := hcompound
        exact .inr ⟨.compoundEditStarted description, rfl, rfl⟩
      · have hscope : ∀ description, scope ≠ .compound description := fun description h =>
          hcompound ⟨description, h⟩
        exact .inl (Edit.Ends.left (Edit.staysWithin_enter hscope m.schema).encloses)
  | leave =>
      obtain ⟨s, scopes⟩ := m
      cases scopes with
      | nil => exact .inl (.refl s)
      | cons opened outer =>
          by_cases hcompound : opened = .compound
          · subst hcompound
            exact .inr ⟨.compoundEditEnded, rfl, rfl⟩
          · exact .inl (Edit.Ends.left (Edit.encloses_leave hcompound s))

/-- What a move publishes in a run, where only tables that it is given are in secondary-change mode:
whatever is about a column of another table is enclosed, and nothing of such a table is left
waiting. -/
theorem encloses_after (config : Config) (moves : List Move) (move : Move)
    (hm : m = (start config).run moves)
    (hmode : ∀ t, m.schema.isHolding t = true → t ∈ move.given m) :
    ∃ es, (m.after move).schema.published = m.schema.published ++ es ∧
      Event.Enclosing ((m.after move).schema.KeepsTo (move.given m)) es ∧
      ∀ t, t ∉ move.given m → (m.after move).schema.heldFor t = [] := by
  have hreach : m.schema.Reachable := ⟨config, moves, congrArg schema hm.symm⟩
  have hs := hreach.sound
  obtain ⟨ht, ho⟩ : m.schema.Tidy ∧ m.schema.Owes := by
    rw [hm]
    exact ⟨tidy_run config moves, owes_run config moves⟩
  have hh : m.schema.Homed := by
    rw [hm]
    exact (effects_run (fun _ _ _ _ hh h => h.homed hh) (Tidy.ofConfig config)
      (homed_ofConfig config) moves).2
  have hheffects := effects_after ht move
  have ho' : (m.after move).schema.Owes :=
    hheffects.preserves (fun _ _ hs ho h => h.owes hs ho) ht ho
  -- events wait only for tables in the mode, and those are given ones, before and after
  have hclear : ∀ t, t ∉ move.given m → (m.after move).schema.heldFor t = [] := by
    intro t hout
    refine ho'.heldFor_eq_nil (Bool.eq_false_iff.mpr fun hon => hout ?_)
    exact (isHolding_after ht move hon).elim (hmode t) id
  rcases covers_after hs ht move with hcovers | ⟨e, he, hsignal⟩
  · have hsilent : m.schema.Silent := by
      rw [hm]
      exact (nested_run config moves).silent
    obtain ⟨es, hes, henclosing⟩ := hcovers.published (hheffects.keepsHomes ht) hsilent
      fun t e he => ho.keepsTo ht hh hmode he
    exact ⟨es, hes, henclosing, hclear⟩
  · refine ⟨[e], by rw [hsignal]; rfl, Event.enclosing_of_forall ?_, hclear⟩
    rw [List.forall_mem_singleton]
    intro hcol
    cases e <;> first | cases hcol | cases he

end Moment

namespace Session

open Schema

/-- A session and the run of its moves are at the same moment, whoever listens first. -/
theorem moment_startWith_run (config : Config) (first : Listener) (acts : List Act) :
    ((startWith config first).run acts).moment =
      (Moment.start config).run (acts.filterMap Act.move?) := moment_run (startWith config first) acts

/-- What was heard is nested as the scopes are. -/
theorem nesting?_heard (config : Config) {acts : List Act}
    (hacts : ∀ act ∈ acts, act.sparesFirst = true) :
    Event.nesting? 0 ((start config).run acts).heard =
      some ((start config).run acts).moment.openEdits := by
  have hnested := (Moment.nested_run config (acts.filterMap Act.move?)).nesting
  rw [← moment_startWith_run config (.log []) acts] at hnested
  rw [heard_run config hacts]
  exact hnested

/-- A tracker that follows the signals counts the open compound edits. -/
theorem foldl_hear_tracker (es : List Event) (tracker : EditTracker) :
    es.foldl Listener.hear (.tracker tracker) = .tracker (es.foldl EditTracker.hear tracker) := by
  induction es generalizing tracker with
  | nil => rfl
  | cons e es ih => exact ih (tracker.hear e)

theorem tracker_run (config : Config) {acts : List Act}
    (hacts : ∀ act ∈ acts, act.sparesFirst = true) :
    ∃ tracker, ((startWith config (.tracker {})).run acts).workspace.bus.listeners.head? =
      some (.tracker tracker) ∧ tracker.depth = ((start config).run acts).moment.openEdits := by
  have hfirst := first_run config (.tracker {}) hacts
  rw [foldl_hear_tracker] at hfirst
  refine ⟨_, hfirst, EditTracker.depth_foldl_hear {} ?_⟩
  have hnested := (Moment.nested_run config (acts.filterMap Act.move?)).nesting
  rw [start_eq, moment_startWith_run]
  rw [← moment_startWith_run config (.tracker {}) acts] at hnested ⊢
  exact hnested

/-- A listener to everything that was there from the start hears the signals of compound edits well
nested: those opened but not closed are the ones that are open, however the operations ended, and
whatever was done since the same scopes were open before. A tracker in its place reads how many.

Where only tables that a move is given are in secondary-change mode, everything that the move tells of
a column of another table comes between the signals of a compound edit, and nothing of another table
is left waiting. -/
theorem hears_nested (config : Config) (acts : List Act)
    (hacts : ∀ act ∈ acts, act.sparesFirst = true) :
    let s := (start config).run acts
    Event.nesting? 0 s.heard = some s.moment.openEdits ∧
    (∀ more, (∀ act ∈ more, act.sparesFirst = true) → (s.run more).scopes = s.scopes →
      Event.nesting? 0 (s.run more).heard = Event.nesting? 0 s.heard) ∧
    (∃ tracker, ((startWith config (.tracker {})).run acts).workspace.bus.listeners.head? =
      some (.tracker tracker) ∧ tracker.depth = s.moment.openEdits) ∧
    ∀ move, (∀ t, s.schema.isHolding t = true → t ∈ move.given s.moment) →
      ∃ es, (s.after (.move move)).heard = s.heard ++ es ∧
        (∀ before e after, es = before ++ e :: after → e.isOfColumn = true →
          (∃ t ∈ move.given s.moment, (s.after (.move move)).schema.columnTable? e = some t) ∨
            ∃ depth, Event.nesting? 0 (s.heard ++ before) = some (depth + 1)) ∧
        ∀ t, t ∉ move.given s.moment → (s.after (.move move)).schema.heldFor t = [] := by
  intro s
  have hnesting : Event.nesting? 0 s.heard = some s.moment.openEdits := nesting?_heard config hacts
  refine ⟨hnesting, fun more hmore hscopes => ?_, tracker_run config hacts, fun move hmode => ?_⟩
  · have hboth : ∀ act ∈ acts ++ more, act.sparesFirst = true := fun act hact =>
      (List.mem_append.mp hact).elim (hacts act) (hmore act)
    have hlater := nesting?_heard config hboth
    have hrun : (start config).run (acts ++ more) = s.run more := List.foldl_append
    have hopen : (s.run more).moment.openEdits = s.moment.openEdits :=
      congrArg (List.countP OpenScope.isCompound) hscopes
    rw [hrun] at hlater
    rw [hlater, hnesting, hopen]
  · have hmoment : s.moment = (Moment.start config).run (acts.filterMap Act.move?) :=
      moment_startWith_run config (.log []) acts
    have hafter : (s.after (.move move)).schema = (s.moment.after move).schema :=
      congrArg Moment.schema (moment_afterMove s move)
    obtain ⟨es, hes, henclosing, hclear⟩ :=
      Moment.encloses_after config _ move hmoment hmode
    rw [← hafter] at hes henclosing hclear
    have hheard : (s.after (.move move)).heard = s.heard ++ es := by
      have hboth : ∀ act ∈ acts ++ [.move move], act.sparesFirst = true := by
        intro act hact
        rcases List.mem_append.mp hact with hact | hact
        · exact hacts act hact
        · rw [List.mem_singleton.mp hact]
          rfl
      have hlater := heard_run config hboth
      have hrun : (start config).run (acts ++ [.move move]) = s.after (.move move) :=
        List.foldl_append
      rw [hrun, hes] at hlater
      rw [hlater, heard_run config hacts]
      rfl
    refine ⟨es, hheard, fun before e after hsplit hcol => ?_, hclear⟩
    -- the edits that were open already only add to the depth
    refine (henclosing before e after hsplit).imp (fun h => h hcol) fun ⟨depth, hdepth⟩ => ?_
    refine ⟨depth + s.moment.openEdits, ?_⟩
    have hdeeper := Event.nesting?_add hdepth s.moment.openEdits
    rw [Event.nesting?_append, hnesting, Option.bind_some, ← Nat.zero_add s.moment.openEdits, hdeeper]
    congr 1
    omega

/-- A column that joins the key of a table, with a child table that follows it. -/
def joiningMove : Move := .edit (.addColumn ⟨1⟩ { name := "serial", rank := some 0 })

/-- The column that the child table gets is told of between the signals of a compound edit, as is
everything else about the columns of that table. -/
theorem hears_nested_joining :
    let s := (start {}).run overlappingActs
    let s' := s.after (.move joiningMove)
    (∀ act ∈ overlappingActs, act.sparesFirst = true) ∧ (∀ t, s.schema.isHolding t = false) ∧
    joiningMove.given s.moment = [⟨1⟩] ∧ Event.nesting? 0 s.heard = some 0 ∧
    ∃ es, s'.heard = s.heard ++ es ∧ .childInserted (.table ⟨2⟩) (.column ⟨8⟩) 3 ∈ es ∧
      ∀ before e after, es = before ++ e :: after → e.isOfColumn = true →
        s'.schema.columnTable? e = some ⟨2⟩ →
          ∃ depth, Event.nesting? 0 (s.heard ++ before) = some (depth + 1) := by
  intro s s'
  have hacts : ∀ act ∈ overlappingActs, act.sparesFirst = true := by decide +kernel
  have hmode : ∀ t, s.schema.isHolding t = false :=
    isHolding_eq_false (tidy_run {} overlappingActs) (by decide +kernel)
  have hgiven : joiningMove.given s.moment = [⟨1⟩] := by decide +kernel
  have hopen : s.moment.openEdits = 0 := by decide +kernel
  obtain ⟨hnesting, -, -, henclosed⟩ := hears_nested {} overlappingActs hacts
  obtain ⟨es, hes, htold, -⟩ := henclosed joiningMove fun t ht =>
    absurd ((hmode t).symm.trans ht) Bool.noConfusion
  refine ⟨hacts, hmode, hgiven, hnesting.trans (congrArg some hopen), es, hes, ?_, ?_⟩
  · have hnew : es = s'.heard.drop s.heard.length := by rw [hes, List.drop_left]
    rw [hnew]
    decide +kernel
  · intro before e after hsplit hcol htable
    refine (htold before e after hsplit hcol).resolve_left ?_
    rintro ⟨t, ht, htable'⟩
    rw [hgiven, List.mem_singleton] at ht
    subst ht
    cases htable.symm.trans htable'

end Session

end KeyedSchema
