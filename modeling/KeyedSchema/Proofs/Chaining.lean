import KeyedSchema.Proofs.Ordering
import Mathlib.Data.List.Chain

/-!
# Chaining — told changes follow on each other

A change of an attribute is told with the value before it and the new one. The changes that are told
of one attribute of one object follow on each other: each starts from the value that the one before
it leaves, and the last one leaves the value that the object has. This holds of what is raised, in
the order in which it is raised. A listener that hears the events of the object in this order hears a
chain as well.
-/

namespace KeyedSchema

/-! ## Chains of changes -/

/-- Whether each change starts from the value that the one before it leaves. -/
def Follow (changes : List (PropertyValue × PropertyValue)) : Prop :=
  changes.IsChain fun earlier later => later.1 = earlier.2

theorem Recounts.follow {before after : Option PropertyValue}
    {changes : List (PropertyValue × PropertyValue)} (h : Recounts before after changes) :
    Follow changes ∧ (∀ d ∈ changes.head?, before = some d.1) ∧
      ∀ d ∈ changes.getLast?, after = some d.2 := by
  induction changes generalizing before with
  | nil => exact ⟨.nil, fun _ hd => (nomatch hd), fun _ hd => (nomatch hd)⟩
  | cons d rest ih =>
      obtain ⟨hbefore, hrest⟩ := h
      obtain ⟨hfollow, hhead, hlast⟩ := ih hrest
      refine ⟨?_, ?_, ?_⟩
      · refine List.isChain_cons.mpr ⟨fun next hnext => ?_, hfollow⟩
        exact (Option.some.inj (hhead next hnext)).symm
      · rintro _ ⟨⟩
        exact hbefore
      · cases rest with
        | nil =>
            rintro _ ⟨⟩
            exact hrest
        | cons d' rest' =>
            rw [List.getLast?_cons_cons]
            exact hlast

namespace Column

/-- An attribute that is taken over has its new value, and the others stay. -/
theorem attribute?_of_withAttribute? {col col' : Column} {property : Property} {new : PropertyValue}
    (h : col.withAttribute? property new = some col') :
    col'.attribute? property = some new ∧
      ∀ p, p ≠ property → col'.attribute? p = col.attribute? p := by
  have htext : ∀ v text, PropertyValue.toText? v = some text → PropertyValue.ofText? text = v := by
    intro v text hv
    cases v <;> simp [PropertyValue.toText?] at hv <;> subst hv <;> rfl
  have hint : ∀ v rank, PropertyValue.toInt? v = some rank → PropertyValue.ofInt? rank = v := by
    intro v rank hv
    cases v <;> simp [PropertyValue.toInt?] at hv <;> subst hv <;> rfl
  unfold withAttribute? at h
  split at h
  case h_11 => cases h
  all_goals first
    | rw [Option.map_eq_some_iff] at h
      obtain ⟨value, hvalue, rfl⟩ := h
      refine ⟨?_, fun p hp => ?_⟩
      · first
        | exact congrArg some (htext _ _ hvalue)
        | exact congrArg some (hint _ _ hvalue)
      · cases p <;> first | rfl | exact absurd rfl hp
    | cases h
      refine ⟨rfl, fun p hp => ?_⟩
      cases p <;> first | rfl | exact absurd rfl hp

/-- A change that a column takes over recounts what becomes of its attributes. -/
theorem recounts_of_update? {col col' : Column} {property : Property} {old new : PropertyValue}
    (h : col.update? property old new = some col') (c : ColumnId) (p : Property) :
    Recounts (col.attribute? p) (col'.attribute? p)
      ([Event.propertyChanged (.column c) property old new].filterMap
        (Event.change? (.column c) p)) := by
  unfold update? at h
  split at h
  · rename_i hold
    obtain ⟨hnew, hothers⟩ := attribute?_of_withAttribute? h
    by_cases hp : p = property
    · subst hp
      simp [Event.change?, Recounts, hold, hnew]
    · simp [Event.change?, Recounts, hothers p hp, Ne.symm hp]
  · cases h

end Column

namespace Schema

variable {moved : Option (RelationshipId × Option TableId)} {s s' s'' : Schema} {o : ObjectRef}
  {p : Property} {os : List ObjectRef} {es : List Event} {t : TableId} {c : ColumnId}
  {r : RelationshipId}

/-! ## Chained schemas -/

/-- An attribute of an object, if the object is there. -/
def attribute? (s : Schema) (o : ObjectRef) (p : Property) : Option PropertyValue :=
  match o with
  | .schema => none
  | .table t => (s.tables.get? t).bind fun tbl => tbl.attribute? p
  | .column c => (s.columns.get? c).bind fun col => col.attribute? p
  | .relationship r => (s.relationships.get? r).bind fun rel => rel.attribute? p

theorem holds_raiseAll (es : List Event) (s : Schema) (o : ObjectRef) :
    (s.raiseAll es).holds o = s.holds o := by
  cases o <;> simp [holds]

theorem attribute?_raiseAll (es : List Event) (s : Schema) (o : ObjectRef) (p : Property) :
    (s.raiseAll es).attribute? o p = s.attribute? o p := by
  cases o <;> simp [attribute?]

theorem attribute?_changeTable {tbl : Table} (htbl : s.tables.get? t = some tbl) (f : Table → Table)
    (p : Property) : (s.changeTable t f).attribute? (.table t) p = (f tbl).attribute? p := by
  simp [attribute?, get?_changeTable, htbl]

theorem attribute?_changeTable_of_ne (ho : o ≠ .table t) (f : Table → Table) (p : Property) :
    (s.changeTable t f).attribute? o p = s.attribute? o p := by
  cases o with
  | schema | column | relationship => rfl
  | table t' =>
      have hne : t' ≠ t := fun heq => ho (heq ▸ rfl)
      simp [attribute?, get?_changeTable, hne]

theorem attribute?_changeColumn {col : Column} (hcol : s.columns.get? c = some col)
    (f : Column → Column) (p : Property) :
    (s.changeColumn c f).attribute? (.column c) p = (f col).attribute? p := by
  simp [attribute?, changeColumn, Roster.get?_modify, hcol]

theorem attribute?_changeColumn_of_ne (ho : o ≠ .column c) (f : Column → Column) (p : Property) :
    (s.changeColumn c f).attribute? o p = s.attribute? o p := by
  cases o with
  | schema | table | relationship => rfl
  | column c' =>
      have hne : c' ≠ c := fun heq => ho (heq ▸ rfl)
      simp [attribute?, changeColumn, Roster.get?_modify, hne]

theorem attribute?_changeRelationship {rel : Relationship} (hrel : s.relationships.get? r = some rel)
    (f : Relationship → Relationship) (p : Property) :
    (s.changeRelationship r f).attribute? (.relationship r) p = (f rel).attribute? p := by
  simp [attribute?, changeRelationship, Roster.get?_modify, hrel]

theorem attribute?_changeRelationship_of_ne (ho : o ≠ .relationship r)
    (f : Relationship → Relationship) (p : Property) :
    (s.changeRelationship r f).attribute? o p = s.attribute? o p := by
  cases o with
  | schema | table | column => rfl
  | relationship r' =>
      have hne : r' ≠ r := fun heq => ho (heq ▸ rfl)
      simp [attribute?, changeRelationship, Roster.get?_modify, hne]

/-- The changes of an attribute that were told. -/
def toldChanges (s : Schema) (o : ObjectRef) (p : Property) : List (PropertyValue × PropertyValue) :=
  s.raised.filterMap (Event.change? o p)

/-- Whether the changes that were told of an attribute follow on each other, up to the value that the
object has. -/
structure Chained (o : ObjectRef) (p : Property) (s : Schema) : Prop where
  follow : Follow (s.toldChanges o p)
  last : s.holds o = true → ∀ d ∈ (s.toldChanges o p).getLast?, s.attribute? o p = some d.2
  issued : s.toldChanges o p ≠ [] → s.Issued o

/-- Whether events tell what becomes of an attribute: nothing of an object that comes or goes. -/
structure Recounted (o : ObjectRef) (p : Property) (s s' : Schema) (es : List Event) : Prop where
  there : es.filterMap (Event.change? o p) ≠ [] → s.holds o = true ∧ s'.holds o = true
  recounts : s.holds o = true → s'.holds o = true →
    Recounts (s.attribute? o p) (s'.attribute? o p) (es.filterMap (Event.change? o p))

/-- Where the events tell nothing of an attribute, it may only come or go with its object. -/
theorem recounted_of_quiet (hes : es.filterMap (Event.change? o p) = [])
    (hattribute : s.holds o = true → s'.holds o = true → s'.attribute? o p = s.attribute? o p) :
    Recounted o p s s' es where
  there h := absurd hes h
  recounts ho ho' := hes ▸ hattribute ho ho'

theorem filterMap_change?_of_source (hes : ∀ e ∈ es, e.source? ≠ some o) (p : Property) :
    es.filterMap (Event.change? o p) = [] :=
  List.filterMap_eq_nil_iff.mpr fun e he => Event.change?_of_source (hes e he) p

namespace Chained

theorem ofConfig (config : Config) (o : ObjectRef) (p : Property) :
    (ofConfig config).Chained o p where
  follow := .nil
  last _ _ hd := nomatch hd
  issued h := absurd rfl h

/-- Further events that recount what becomes of the attribute. -/
theorem extend (h : s.Chained o p) (hall : s.AllIssued) (hissues : Issues os s s')
    (hraised : s'.raised = s.raised ++ es) (htold : Recounted o p s s' es) : s'.Chained o p := by
  have hchanges : s'.toldChanges o p =
      s.toldChanges o p ++ es.filterMap (Event.change? o p) := by
    unfold toldChanges
    rw [hraised, List.filterMap_append]
  -- an object of which something was told is there only if it was there before
  have hback : s.toldChanges o p ≠ [] → s'.holds o = true → s.holds o = true := by
    intro hne ho'
    rw [← Bool.not_eq_false]
    exact fun hgone =>
      Bool.noConfusion (ho'.symm.trans (hissues.absent (h.issued hne) hgone))
  by_cases hnone : es.filterMap (Event.change? o p) = []
  · -- nothing new is told, so the attribute is as it was
    rw [hnone, List.append_nil] at hchanges
    refine ⟨hchanges ▸ h.follow, fun ho' d hd => ?_, fun hne => ?_⟩
    · rw [hchanges] at hd
      have ho := hback (List.ne_nil_of_mem (List.mem_of_getLast? hd)) ho'
      have hsame := htold.recounts ho ho'
      rw [hnone] at hsame
      exact Eq.trans hsame (h.last ho d hd)
    · exact hissues.issued o (h.issued (hchanges ▸ hne))
  · obtain ⟨ho, ho'⟩ := htold.there hnone
    obtain ⟨hfollow, hhead, hlast⟩ := (htold.recounts ho ho').follow
    refine ⟨?_, fun _ d hd => ?_, fun _ => hissues.issued o (hall o ho)⟩
    · -- the first new change starts where the last old one has left the attribute
      rw [hchanges]
      refine List.isChain_append.mpr ⟨h.follow, hfollow, fun earlier hearlier later hlater => ?_⟩
      exact Option.some.inj ((hhead later hlater).symm.trans (h.last ho earlier hearlier))
    · rw [hchanges, List.getLast?_append_of_ne_nil _ hnone] at hd
      exact hlast d hd

end Chained

/-! ## Attributes that stay -/

/-- Whether the records that are stored before and after have the same attributes. -/
structure SameAttributes (s s' : Schema) : Prop where
  tables : s.tables.Keeps Table.attribute? s'.tables
  columns : s.columns.Keeps Column.attribute? s'.columns
  relationships : s.relationships.Keeps Relationship.attribute? s'.relationships

theorem SameAttributes.attribute? (h : SameAttributes s s') (p : Property) (ho : s.holds o = true)
    (ho' : s'.holds o = true) : s'.attribute? o p = s.attribute? o p := by
  cases o with
  | schema => rfl
  | table t =>
      obtain ⟨tbl, htbl⟩ := (Roster.contains_iff _ _).mp ho
      obtain ⟨tbl', htbl'⟩ := (Roster.contains_iff _ _).mp ho'
      simp [Schema.attribute?, htbl, htbl', h.tables t tbl tbl' htbl htbl']
  | column c =>
      obtain ⟨col, hcol⟩ := (Roster.contains_iff _ _).mp ho
      obtain ⟨col', hcol'⟩ := (Roster.contains_iff _ _).mp ho'
      simp [Schema.attribute?, hcol, hcol', h.columns c col col' hcol hcol']
  | relationship r =>
      obtain ⟨rel, hrel⟩ := (Roster.contains_iff _ _).mp ho
      obtain ⟨rel', hrel'⟩ := (Roster.contains_iff _ _).mp ho'
      simp [Schema.attribute?, hrel, hrel', h.relationships r rel rel' hrel hrel']

theorem sameAttributes_of_objects (h : SameObjects s s') : SameAttributes s s' :=
  ⟨.of_eq h.tables, .of_eq h.columns, .of_eq h.relationships⟩

theorem SameAttributes.trans_objects (h : SameAttributes s s') (ho : SameObjects s' s'') :
    SameAttributes s s'' :=
  ⟨ho.tables ▸ h.tables, ho.columns ▸ h.columns, ho.relationships ▸ h.relationships⟩

/-- Where nothing is told of attributes and all of them stay. -/
theorem SameAttributes.recounted (h : SameAttributes s s') (hraised : s'.raised = s.raised ++ es)
    (hes : ∀ e ∈ es, ∀ o p, e.change? o p = none) (o : ObjectRef) (p : Property) :
    ∃ es, s'.raised = s.raised ++ es ∧ Recounted o p s s' es :=
  ⟨es, hraised, recounted_of_quiet (List.filterMap_eq_nil_iff.mpr fun e he => hes e he o p)
    (h.attribute? p)⟩

/-- An event that tells of no attribute, after a change of none. -/
theorem SameAttributes.recounted_raise (h : SameAttributes s s') {e : Event}
    (he : ∀ o p, e.change? o p = none) (o : ObjectRef) (p : Property)
    (hraised : s'.raised = s.raised) :
    ∃ es, (s'.raise e).raised = s.raised ++ es ∧ Recounted o p s (s'.raise e) es :=
  (h.trans_objects (SameObjects.raise e s')).recounted (hraised ▸ raised_raise e s')
    (List.forall_mem_singleton.mpr he) o p

/-! ## Effects keep the chains -/

/-- The attributes of one object are told as they change. -/
theorem recounted_raiseAll (source : ObjectRef) (hes : ∀ e ∈ es, e.source? = some source)
    (hsource : es ≠ [] → s.holds source = true) (hholds : s'.holds source = s.holds source)
    (htold : s.holds source = true → ∀ p, Recounts (s.attribute? source p) (s'.attribute? source p)
      (es.filterMap (Event.change? source p)))
    (hothers : ∀ o, o ≠ source → ∀ p, s'.attribute? o p = s.attribute? o p)
    (hraised : s'.raised = s.raised) (o : ObjectRef) (p : Property) :
    ∃ es', (s'.raiseAll es).raised = s.raised ++ es' ∧ Recounted o p s (s'.raiseAll es) es' := by
  refine ⟨es, hraised ▸ raised_raiseAll es s', ?_⟩
  by_cases ho : o = source
  · subst ho
    constructor
    · intro hne
      have hthere := hsource fun hnil => hne (by rw [hnil]; rfl)
      exact ⟨hthere, (holds_raiseAll es s' o).trans (hholds.trans hthere)⟩
    · intro hthere _
      rw [attribute?_raiseAll]
      exact htold hthere p
  · refine recounted_of_quiet (filterMap_change?_of_source (fun e he hsource => ho ?_) p) fun _ _ => ?_
    · exact Option.some.inj (hsource.symm.trans (hes e he))
    · rw [attribute?_raiseAll]
      exact hothers o ho p

theorem Effect.recounted (h : Effect moved s s') (hall : s.AllIssued) (o : ObjectRef) (p : Property) :
    ∃ es, s'.raised = s.raised ++ es ∧ Recounted o p s s' es := by
  have hsilent (hraised : s'.raised = s.raised) (hsame : SameAttributes s s') :
      ∃ es, s'.raised = s.raised ++ es ∧ Recounted o p s s' es :=
    hsame.recounted (hraised.trans (List.append_nil _).symm) (fun _ he => (nomatch he)) o p
  cases h with
  | signal e he =>
      rw [Event.isCompoundSignal, Option.isNone_iff_eq_none] at he
      refine (sameAttributes_of_objects (SameObjects.signal e s)).recounted rfl
        (List.forall_mem_singleton.mpr fun o p => Event.change?_of_source ?_ p) o p
      simp [he]
  | skip h =>
      refine hsilent ?_ ⟨.of_eq ?_, .of_eq ?_, .of_eq ?_⟩
      all_goals rw [h.same]
  | storeRelationship rel =>
      exact hsilent rfl ⟨.of_eq rfl, .of_eq rfl, .insert _ hall.relationship_next⟩
  | eraseRelationship => exact hsilent rfl ⟨.of_eq rfl, .of_eq rfl, .erase _⟩
  | suspend | resume => exact hsilent rfl ⟨.modify _ fun _ _ => rfl, .of_eq rfl, .of_eq rfl⟩
  | forget => exact hsilent rfl ⟨.of_eq rfl, .of_eq rfl, .of_eq rfl⟩
  | @describeRelationship r rel hrel f es hes hchild htold =>
      refine recounted_raiseAll (.relationship r) hes (fun _ => Roster.contains_of_get? hrel) ?_
        (fun _ p => ?_) (fun _ ho => attribute?_changeRelationship_of_ne ho f) rfl o p
      · exact Roster.contains_modify ..
      · rw [attribute?_changeRelationship hrel]
        simpa [attribute?, hrel] using htold p
  | @describe t f hlists hmode es hes htold =>
      refine recounted_raiseAll (.table t) (fun e he => ?_) (fun hne => ?_) ?_ (fun ht p => ?_)
        (fun _ ho => attribute?_changeTable_of_ne ho f) rfl o p
      · obtain ⟨-, property, old, new, rfl⟩ := hes e he
        rfl
      · obtain ⟨e, he⟩ := List.exists_mem_of_ne_nil _ hne
        exact (hes e he).1
      · exact Roster.contains_modify ..
      · obtain ⟨tbl, htbl⟩ := (Roster.contains_iff _ _).mp ht
        rw [attribute?_changeTable htbl]
        simpa [attribute?, htbl] using htold tbl htbl p
  | @describeColumn c col hcol property old new f hf =>
      rw [raise_eq_raiseAll]
      refine recounted_raiseAll (.column c) (List.forall_mem_singleton.mpr rfl)
        (fun _ => Roster.contains_of_get? hcol) ?_ (fun _ p => ?_)
        (fun _ ho => attribute?_changeColumn_of_ne ho f) rfl o p
      · exact Roster.contains_modify ..
      · rw [attribute?_changeColumn hcol]
        simpa [attribute?, hcol] using Column.recounts_of_update? hf c p
  -- an event about a table tells of no attribute
  | appendTable tbl =>
      unfold Schema.appendTable
      refine SameAttributes.recounted_raise ?_ ?_ o p (by rfl)
      · exact ⟨.insert _ hall.table_next, .of_eq rfl, .of_eq rfl⟩
      · exact fun _ _ => rfl
  | eraseTable =>
      unfold Schema.eraseTable
      refine SameAttributes.recounted_raise ?_ ?_ o p (by rfl)
      · exact ⟨.erase _, keeps_foldl_erase _, .of_eq rfl⟩
      · exact fun _ _ => rfl
  | @relist t tbl htbl f e hsource habout hlists hmode hattributes =>
      refine SameAttributes.recounted_raise ?_ (fun o p => ?_) o p (by rfl)
      · refine ⟨.modify t fun tbl' htbl' => ?_, .of_eq rfl, .of_eq rfl⟩
        obtain rfl := Option.some.inj (htbl.symm.trans htbl')
        exact hattributes
      · unfold Event.about? at habout
        split at habout <;> first | rfl | cases habout
  | placeColumn htbl hi col =>
      unfold Schema.placeColumn
      refine SameAttributes.recounted_raise ?_ ?_ o p (by rfl)
      · exact ⟨.modify _ fun _ _ => rfl, .insert _ hall.column_next, .of_eq rfl⟩
      · exact fun _ _ => rfl
  | dropColumn =>
      unfold Schema.dropColumn
      refine SameAttributes.recounted_raise ?_ ?_ o p (by rfl)
      · exact ⟨.modify _ fun _ _ => rfl, .erase _, .of_eq rfl⟩
      · exact fun _ _ => rfl

theorem Effect.chained (h : Effect moved s s') (hall : s.AllIssued) (hc : s.Chained o p) :
    s'.Chained o p := by
  obtain ⟨os, hissues⟩ := h.issues
  obtain ⟨es, hraised, htold⟩ := h.recounted hall o p
  exact hc.extend hall hissues hraised htold

end Schema

/-- Along every run, told changes follow on each other. -/
theorem Moment.chained_run (config : Config) (moves : List Move) (o : ObjectRef) (p : Property) :
    ((start config).run moves).schema.Chained o p := by
  refine (effects_run (P := fun s => s.AllIssued ∧ s.Chained o p) ?_ (Schema.Tidy.ofConfig config)
    ⟨?_, Schema.Chained.ofConfig config o p⟩ moves).2.2
  · rintro moved s s' - ⟨hall, hc⟩ h
    obtain ⟨os, hissues⟩ := h.issues
    exact ⟨hall.of_issues hissues, h.chained hall hc⟩
  · exact Schema.allIssued_ofConfig config

namespace Session

open Schema

/-- Whenever no table is in secondary-change mode, a listener to everything that was there from the
start has heard the events of each object in the order in which they were raised, unless the object
is a relationship that was taken away from a table in the mode. Each change of an attribute that it
has heard of starts from the value that the one before it left. -/
theorem hears_in_order (config : Config) (acts : List Act)
    (hacts : ∀ act ∈ acts, act.sparesFirst = true) (o : ObjectRef)
    (hline : ∀ r, o = .relationship r → (start config).keepsLine r acts = true) :
    let s := (start config).run acts
    s.schema.tables.anyEntry (fun _ tbl => tbl.inSecondaryChange) = false →
      s.heard.filter (fun e => e.source? = some o) =
        s.schema.raised.filter (fun e => e.source? = some o) ∧
      ∀ p, Follow (s.heard.filterMap (Event.change? o p)) := by
  intro s hmode
  have howes : s.schema.Owes := owes_run config acts
  have hnone := isHolding_eq_false (tidy_run config acts) hmode
  have hline : s.schema.Lined o := lined_run acts (Tidy.ofConfig config) (Owes.ofConfig config)
    (allIssued_ofConfig config) (Lined.ofConfig config o) hline
  have hheard : s.heard.filter (fun e => e.source? = some o) =
      s.schema.raised.filter fun e => e.source? = some o := by
    rw [heard_run config hacts]
    refine hline.clear fun t ⟨e, he, _⟩ => ?_
    rw [howes.heldFor_eq_nil (hnone t)] at he
    exact absurd he List.not_mem_nil
  refine ⟨hheard, fun p => ?_⟩
  have hchained : s.schema.Chained o p := by
    have := Moment.chained_run config (acts.filterMap Act.move?) o p
    rwa [← schema_run] at this
  -- only the events of the object tell of its attributes
  have hown : ∀ es : List Event, (es.filter fun e => e.source? = some o).filterMap
      (Event.change? o p) = es.filterMap (Event.change? o p) := by
    intro es
    rw [List.filterMap_filter]
    refine List.filterMap_congr fun e _ => ?_
    split
    · rfl
    · rename_i h
      exact (Event.change?_of_source (by simpa using h) p).symm
  rw [← hown, hheard, hown]
  exact hchained.follow

/-- A relationship that is attached, described and registered while its child is in secondary-change
mode, and that gets another child afterwards. -/
def retargetingActs : List Act :=
  overlappingActs ++
  [.move (.edit (.createRelationship { name := "r" })),
    .move (.enter (.secondaryChange ⟨1⟩)),
    .move (.edit (.setChild ⟨2⟩ (some ⟨1⟩))),
    .move (.edit (.setParent ⟨2⟩ (some ⟨2⟩))),
    .move (.edit (.setRelationshipName ⟨2⟩ "s")),
    .move (.edit (.setColumnName ⟨1⟩ "key")),
    .move .leave,
    .move (.edit (.setRelationshipName ⟨2⟩ "t")),
    .move (.edit (.setChild ⟨2⟩ (some ⟨2⟩)))]

/-- The relationship leaves its first child after the table has left the mode, so its five events
come in order, although they were held back in between. -/
theorem hears_in_order_retargeting :
    (∀ act ∈ retargetingActs, act.sparesFirst = true) ∧
    (start {}).keepsLine ⟨2⟩ retargetingActs = true ∧
    ((start {}).run retargetingActs).schema.tables.anyEntry (fun _ tbl => tbl.inSecondaryChange) =
      false ∧
    (((start {}).run retargetingActs).heard.filterMap
      (Event.change? (.relationship ⟨2⟩) .fkTable)).length = 2 ∧
    ((start {}).run retargetingActs).heard ≠ ((start {}).run retargetingActs).schema.raised ∧
    ((start {}).run retargetingActs).heard.filter (fun e => e.source? = some (.relationship ⟨2⟩)) =
      ((start {}).run retargetingActs).schema.raised.filter
        (fun e => e.source? = some (.relationship ⟨2⟩)) ∧
    ∀ p, Follow (((start {}).run retargetingActs).heard.filterMap
      (Event.change? (.relationship ⟨2⟩) p)) := by
  have hacts : ∀ act ∈ retargetingActs, act.sparesFirst = true := by decide +kernel
  have hline : (start {}).keepsLine ⟨2⟩ retargetingActs = true := by decide +kernel
  have hmode : ((start {}).run retargetingActs).schema.tables.anyEntry
      (fun _ tbl => tbl.inSecondaryChange) = false := by decide +kernel
  obtain ⟨horder, hfollow⟩ := hears_in_order {} retargetingActs hacts (.relationship ⟨2⟩)
    (fun r hr => by cases hr; exact hline) hmode
  exact ⟨hacts, hline, hmode, by decide +kernel, by decide +kernel, horder, hfollow⟩

/-- A relationship that is taken away from a table in the mode: its first change waits for the table,
and the second one does not wait for the first. -/
example :
    let s := (start {}).run
      [.move (.edit (.addTable { name := "a" })),
        .move (.edit (.addTable { name := "b" })),
        .move (.edit (.createRelationship { name := "r" })),
        .move (.enter (.secondaryChange ⟨1⟩)),
        .move (.edit (.setChild ⟨1⟩ (some ⟨1⟩))),
        .move (.edit (.setChild ⟨1⟩ (some ⟨2⟩))),
        .move .leave]
    s.heard.filterMap (Event.change? (.relationship ⟨1⟩) .fkTable) =
      [(.table ⟨1⟩, .table ⟨2⟩), (.null, .table ⟨1⟩)] := by
  decide +kernel

end Session

end KeyedSchema
