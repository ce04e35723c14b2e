import KeyedSchema.Schema.Basic
import Mathlib.Logic.Function.Basic
import Mathlib.Tactic.Choose

/-!
# Replica — what a client rebuilds from the events it hears

A client that hears every event can keep, without ever asking the schema, the order of the tables
and the columns and registrations of each table: a `Replica`. It takes over an event only if the
event fits, that is, if what is put in goes to a place within its list and what is taken out stands
at the named place. In the same way it can keep the attributes of a column: a changed attribute is
taken over only if the value before the change is the one that the client has.

What a client rebuilds does not depend on how events about different tables are interleaved: it is
enough that the events of the schema, and those about each table, come in their order.
-/

namespace KeyedSchema

/-! ## Lists that are told change by change -/

section Lists

variable {α : Type}

/-- Put `a` in at a place within the list. -/
def insertAt? (i : Nat) (a : α) (as : List α) : Option (List α) :=
  if i ≤ as.length then some (as.insertIdx i a) else none

/-- Take `a` out, which has to stand at place `i`. -/
def removeAt? [DecidableEq α] (i : Nat) (a : α) (as : List α) : Option (List α) :=
  if as[i]? = some a then some (as.eraseIdx i) else none

theorem insertAt?_of_le {i : Nat} {a : α} {as : List α} (h : i ≤ as.length) :
    insertAt? i a as = some (as.insertIdx i a) := if_pos h

theorem insertAt?_length (a : α) (as : List α) : insertAt? as.length a as = some (as ++ [a]) := by
  rw [insertAt?_of_le (Nat.le_refl _), List.insertIdx_length_self]

theorem getElem?_of_idxOf? [DecidableEq α] {i : Nat} {a : α} {as : List α}
    (h : as.idxOf? a = some i) : as[i]? = some a := by
  obtain ⟨hi, ha, -⟩ := List.idxOf?_eq_some_iff.mp h
  exact List.getElem?_eq_some_iff.mpr ⟨hi, ha⟩

theorem mem_of_idxOf? [DecidableEq α] {i : Nat} {a : α} {as : List α}
    (h : as.idxOf? a = some i) : a ∈ as := List.mem_of_getElem? (getElem?_of_idxOf? h)

theorem removeAt?_of_idxOf? [DecidableEq α] {i : Nat} {a : α} {as : List α}
    (h : as.idxOf? a = some i) : removeAt? i a as = some (as.eraseIdx i) :=
  if_pos (getElem?_of_idxOf? h)

end Lists

/-- What a client keeps of a table. -/
structure TableLists where
  columns : List ColumnId := []
  exportedKeys : List RelationshipId := []
  importedKeys : List RelationshipId := []
  deriving DecidableEq, Repr

namespace TableLists

/-- Put a child in at a place within its list. -/
def insert? (l : TableLists) (child : Child) (i : Nat) : Option TableLists :=
  match child with
  | .column c => (insertAt? i c l.columns).map fun columns => { l with columns }
  | .exportedKey r => (insertAt? i r l.exportedKeys).map fun exportedKeys => { l with exportedKeys }
  | .importedKey r => (insertAt? i r l.importedKeys).map fun importedKeys => { l with importedKeys }
  | .table _ | .mapping _ => none

/-- Take a child out, which has to stand at place `i` of its list. -/
def remove? (l : TableLists) (child : Child) (i : Nat) : Option TableLists :=
  match child with
  | .column c => (removeAt? i c l.columns).map fun columns => { l with columns }
  | .exportedKey r => (removeAt? i r l.exportedKeys).map fun exportedKeys => { l with exportedKeys }
  | .importedKey r => (removeAt? i r l.importedKeys).map fun importedKeys => { l with importedKeys }
  | .table _ | .mapping _ => none

end TableLists

/-- The lists of a table. -/
def Table.lists (tbl : Table) : TableLists :=
  ⟨tbl.columns, tbl.exportedKeys, tbl.importedKeys⟩

/-! ## What events are about -/

namespace Event

/-- Whether the event comes from the schema itself. -/
def isOfSchema (e : Event) : Bool := e.source? == some .schema

/-- The table that the event puts in or takes out, or whose lists it changes. -/
def about? : Event → Option TableId
  | childInserted .schema (.table t) _ => some t
  | childRemoved .schema (.table t) _ => some t
  | childInserted (.table t) _ _ => some t
  | childRemoved (.table t) _ _ => some t
  | _ => none

/-- What is about a table comes from the schema or from the table. -/
theorem source?_of_about? {e : Event} {t : TableId} (h : e.about? = some t) :
    e.source? = some .schema ∨ e.source? = some (.table t) := by
  unfold about? at h
  split at h
  · exact .inl rfl
  · exact .inl rfl
  · exact .inr (congrArg (some ∘ ObjectRef.table) (Option.some.inj h))
  · exact .inr (congrArg (some ∘ ObjectRef.table) (Option.some.inj h))
  · cases h

/-- The order of the tables after an event. -/
def tablesAfter? (ts : List TableId) : Event → Option (List TableId)
  | childInserted .schema (.table t) i => insertAt? i t ts
  | childRemoved .schema (.table t) i => removeAt? i t ts
  -- nothing but tables stands in a schema
  | childInserted .schema _ _ => none
  | childRemoved .schema _ _ => none
  | _ => some ts

/-- The lists of a table, which has none while it is not there, after an event about it. -/
def listsAfter? (l : Option TableLists) : Event → Option (Option TableLists)
  | childInserted .schema _ _ => if l.isSome then none else some (some {})
  | childRemoved .schema _ _ => some none
  | childInserted (.table _) child i => (l.bind fun l => l.insert? child i).map some
  | childRemoved (.table _) child i => (l.bind fun l => l.remove? child i).map some
  | _ => some l

theorem tablesAfter?_of_not {e : Event} (h : e.isOfSchema = false) (ts : List TableId) :
    tablesAfter? ts e = some ts := by
  unfold tablesAfter?
  split <;> first | rfl | exact absurd h Bool.noConfusion

end Event

/-! ## Replicas -/

/-- What a client keeps of a schema: the order of the tables, and the lists of each table that is
there. -/
@[ext] structure Replica where
  tables : List TableId := []
  lists : TableId → Option TableLists := fun _ => none

namespace Replica

/-- The replica after an event, if the event fits. -/
def hear? (m : Replica) (e : Event) : Option Replica :=
  match Event.tablesAfter? m.tables e, e.about? with
  | none, _ => none
  | some tables, none => some { m with tables }
  | some tables, some t =>
      (Event.listsAfter? (m.lists t) e).map fun l => ⟨tables, Function.update m.lists t l⟩

/-- The replica after a series of events, if each of them fits where it comes. -/
def replay? (m : Replica) (es : List Event) : Option Replica := es.foldlM hear? m

@[simp] theorem replay?_nil (m : Replica) : m.replay? [] = some m := rfl

@[simp] theorem replay?_cons (m : Replica) (e : Event) (es : List Event) :
    m.replay? (e :: es) = (m.hear? e).bind fun m' => m'.replay? es := rfl

theorem replay?_append (m : Replica) (es es' : List Event) :
    m.replay? (es ++ es') = (m.replay? es).bind fun m' => m'.replay? es' := List.foldlM_append

/-! ### Replicas by parts -/

/-- The lists of `t` after any event. -/
def listsStep? (t : TableId) (l : Option TableLists) (e : Event) : Option (Option TableLists) :=
  if e.about? = some t then e.listsAfter? l else some l

/-- An event fits a replica if it fits each of its parts. -/
theorem hear?_eq_some {m m' : Replica} {e : Event} :
    m.hear? e = some m' ↔ e.tablesAfter? m.tables = some m'.tables ∧
      ∀ t, listsStep? t (m.lists t) e = some (m'.lists t) := by
  obtain ⟨tables', lists'⟩ := m'
  unfold hear? listsStep?
  cases htables : e.tablesAfter? m.tables with
  | none => simp
  | some tables =>
      cases habout : e.about? with
      | none => simp [Replica.ext_iff, funext_iff]
      | some t =>
          simp only [Option.map_eq_some_iff, mk.injEq, Option.some.injEq]
          constructor
          · rintro ⟨l, hl, rfl, rfl⟩
            refine ⟨rfl, fun t' => ?_⟩
            by_cases h : t = t'
            · subst h
              simp [hl]
            · simp [h, Function.update_of_ne (Ne.symm h)]
          · rintro ⟨rfl, hlists⟩
            have ht := hlists t
            rw [if_pos rfl] at ht
            refine ⟨lists' t, ht, rfl, funext fun t' => ?_⟩
            by_cases h : t = t'
            · subst h
              simp
            · have := hlists t'
              rw [if_neg h] at this
              rw [Function.update_of_ne (Ne.symm h)]
              exact Option.some.inj this

/-- A series of events fits a replica if it fits each of its parts. -/
theorem replay?_eq_some {m m' : Replica} {es : List Event} :
    m.replay? es = some m' ↔ es.foldlM Event.tablesAfter? m.tables = some m'.tables ∧
      ∀ t, es.foldlM (listsStep? t) (m.lists t) = some (m'.lists t) := by
  induction es generalizing m with
  | nil => simp [Replica.ext_iff, funext_iff]
  | cons e es ih =>
      simp only [replay?_cons, List.foldlM_cons, Option.bind_eq_bind, Option.bind_eq_some_iff]
      constructor
      · rintro ⟨m₁, hm₁, hm'⟩
        obtain ⟨htables, hlists⟩ := hear?_eq_some.mp hm₁
        obtain ⟨htables', hlists'⟩ := ih.mp hm'
        exact ⟨⟨_, htables, htables'⟩, fun t => ⟨_, hlists t, hlists' t⟩⟩
      · rintro ⟨⟨tables, htables, htables'⟩, hlists⟩
        choose lists hlists hlists' using hlists
        exact ⟨⟨tables, lists⟩, hear?_eq_some.mpr ⟨htables, hlists⟩, ih.mpr ⟨htables', hlists'⟩⟩

end Replica

/-- Steps that change nothing may be left out. -/
theorem foldlM_filter {α β : Type} (step : α → β → Option α) (p : β → Bool)
    (h : ∀ b, p b = false → ∀ a, step a b = some a) (bs : List β) (a : α) :
    (bs.filter p).foldlM step a = bs.foldlM step a := by
  induction bs generalizing a with
  | nil => rfl
  | cons b bs ih =>
      cases hb : p b with
      | false =>
          rw [List.filter_cons_of_neg (by simp [hb]), ih, List.foldlM_cons, h b hb]
          rfl
      | true =>
          rw [List.filter_cons_of_pos hb, List.foldlM_cons, List.foldlM_cons]
          exact congrArg _ (funext ih)

/-- Two series of events rebuild the same replica if the events of the schema, and those about each
table, come in the same order. -/
theorem Replica.replay?_congr {es es' : List Event} {m m' : Replica} (h : m.replay? es = some m')
    (hschema : es'.filter Event.isOfSchema = es.filter Event.isOfSchema)
    (htables : ∀ t, es'.filter (fun e => e.about? = some t) = es.filter fun e => e.about? = some t) :
    m.replay? es' = some m' := by
  obtain ⟨hts, hls⟩ := replay?_eq_some.mp h
  refine replay?_eq_some.mpr ⟨?_, fun t => ?_⟩
  · have hfilter := foldlM_filter Event.tablesAfter? Event.isOfSchema fun e he ts =>
      Event.tablesAfter?_of_not he ts
    rw [← hfilter, hschema, hfilter, hts]
  · have hfilter := foldlM_filter (listsStep? t) (fun e => e.about? = some t) fun e he l =>
      if_neg (of_decide_eq_false he)
    rw [← hfilter, htables, hfilter, hls]

/-! ## Attributes of columns -/

namespace PropertyValue

/-- The text that a value stands for; no text stands for itself. -/
def toText? : PropertyValue → Option (Option String)
  | null => some none
  | text value => some (some value)
  | _ => none

/-- The number that a value stands for; no number stands for itself. -/
def toInt? : PropertyValue → Option (Option Nat)
  | null => some none
  | int value => some (some value)
  | _ => none

@[simp] theorem toText?_ofText? (value : Option String) : (ofText? value).toText? = some value := by
  cases value <;> rfl

@[simp] theorem toInt?_ofInt? (value : Option Nat) : (ofInt? value).toInt? = some value := by
  cases value <;> rfl

end PropertyValue

namespace Column

/-- An attribute of a column. -/
def attribute? (col : Column) : Property → Option PropertyValue
  | .name => some (.text col.name)
  | .physicalName => some (.ofText? col.physicalOverride)
  | .remarks => some (.ofText? col.remarks)
  | .dataType => some (.type col.type)
  | .precision => some (.int col.precision)
  | .scale => some (.int col.scale)
  | .nullable => some (.bool col.nullable)
  | .autoIncrement => some (.bool col.autoIncrement)
  | .defaultValue => some (.ofText? col.defaultValue)
  | .primaryKeySeq => some (.ofInt? col.rank)
  | _ => none

/-- The column with another value of an attribute, if there can be such a value. -/
def withAttribute? (col : Column) : Property → PropertyValue → Option Column
  | .name, .text name => some { col with name }
  | .physicalName, v => v.toText?.map fun name => { col with physicalOverride := name }
  | .remarks, v => v.toText?.map fun remarks => { col with remarks }
  | .dataType, .type type => some { col with type }
  | .precision, .int precision => some { col with precision }
  | .scale, .int scale => some { col with scale }
  | .nullable, .bool nullable => some { col with nullable }
  | .autoIncrement, .bool autoIncrement => some { col with autoIncrement }
  | .defaultValue, v => v.toText?.map fun defaultValue => { col with defaultValue }
  | .primaryKeySeq, v => v.toInt?.map fun rank => { col with rank }
  | _, _ => none

/-- Take over a changed attribute, whose old value has to be the one that the column has. -/
def update? (col : Column) (property : Property) (old new : PropertyValue) : Option Column :=
  if col.attribute? property = some old then col.withAttribute? property new else none

/-- No attribute is the table that owns the column. -/
theorem table_of_update? {col col' : Column} {property : Property} {old new : PropertyValue}
    (h : col.update? property old new = some col') : col'.table = col.table := by
  unfold update? at h
  split at h
  · unfold withAttribute? at h
    split at h <;>
      first
      | cases h; rfl
      | (rw [Option.map_eq_some_iff] at h; obtain ⟨_, -, rfl⟩ := h; rfl)
      | cases h
  · cases h

theorem update?_rank (col : Column) (rank : Option Nat) :
    col.update? .primaryKeySeq (.ofInt? col.rank) (.ofInt? rank) = some { col with rank } := by
  simp [update?, attribute?, withAttribute?]

/-- What a client knows of the column `c` after an event, if the event fits. -/
def hear? (c : ColumnId) (col : Column) : Event → Option Column
  | .propertyChanged (.column c') property old new =>
      if c' = c then col.update? property old new else some col
  | _ => some col

/-- What a client knows of the column `c` after a series of events, if each of them fits. -/
def replay? (c : ColumnId) (col : Column) (es : List Event) : Option Column := es.foldlM (hear? c) col

theorem replay?_append (c : ColumnId) (col : Column) (es es' : List Event) :
    col.replay? c (es ++ es') = (col.replay? c es).bind fun col' => col'.replay? c es' :=
  List.foldlM_append

/-- Only the events of the column tell anything about it. -/
theorem hear?_of_ne {c : ColumnId} {e : Event} (h : e.source? ≠ some (.column c)) (col : Column) :
    col.hear? c e = some col := by
  unfold hear?
  split
  · rename_i c' property old new
    refine if_neg fun hc => h ?_
    rw [hc]
    rfl
  · rfl

theorem replay?_of_ne {c : ColumnId} {es : List Event}
    (h : ∀ e ∈ es, e.source? ≠ some (.column c)) (col : Column) : col.replay? c es = some col := by
  induction es with
  | nil => rfl
  | cons e es ih =>
      rw [List.forall_mem_cons] at h
      unfold replay? at ih ⊢
      rw [List.foldlM_cons, hear?_of_ne h.1]
      exact ih h.2

/-- Two series of events tell the same about a column if its own events come in the same order. -/
theorem replay?_congr {c : ColumnId} {es es' : List Event}
    (h : es'.filter (fun e => e.source? = some (.column c)) =
      es.filter fun e => e.source? = some (.column c)) (col : Column) :
    col.replay? c es' = col.replay? c es := by
  have hfilter := foldlM_filter (hear? c) (fun e => e.source? = some (.column c)) fun e he col =>
    hear?_of_ne (of_decide_eq_false he) col
  unfold replay?
  rw [← hfilter, h, hfilter]

end Column

/-! ## Attributes of tables and relationships -/

/-- An attribute of a table. -/
def Table.attribute? (tbl : Table) : Property → Option PropertyValue
  | .name => some (.text tbl.name)
  | .physicalName => some (.ofText? tbl.physicalOverride)
  | .remarks => some (.ofText? tbl.remarks)
  | _ => none

/-- An attribute of a relationship, its ends among them. -/
def Relationship.attribute? (rel : Relationship) : Property → Option PropertyValue
  | .name => some (.text rel.name)
  | .physicalName => some (.ofText? rel.physicalOverride)
  | .pkTable => some (.ofTable? rel.parent)
  | .fkTable => some (.ofTable? rel.child)
  | .identifying => some (.bool rel.identifying)
  | .pkCardinality => some (.cardinality rel.parentCardinality)
  | .fkCardinality => some (.cardinality rel.childCardinality)
  | .updateRule => some (.rule rel.updateRule)
  | .deleteRule => some (.rule rel.deleteRule)
  | .deferrability => some (.deferrability rel.deferrability)
  | _ => none

/-! ## Told changes of attributes -/

/-- The change of an attribute of an object that an event tells: the value before and the new one. -/
def Event.change? (o : ObjectRef) (property : Property) :
    Event → Option (PropertyValue × PropertyValue)
  | propertyChanged source told old new =>
      if source = o ∧ told = property then some (old, new) else none
  | _ => none

/-- Only the events of an object tell of its attributes. -/
theorem Event.change?_of_source {o : ObjectRef} {e : Event} (h : e.source? ≠ some o)
    (property : Property) : e.change? o property = none := by
  unfold change?
  split
  · rename_i source told old new
    exact if_neg fun hboth => h (congrArg some hboth.1)
  · rfl

/-- Whether told changes lead from one value of an attribute to another, each from the value that
the one before it leaves. -/
def Recounts (before after : Option PropertyValue) : List (PropertyValue × PropertyValue) → Prop
  | [] => after = before
  | (old, new) :: rest => before = some old ∧ Recounts (some new) after rest

/-! ## What a schema would have a client keep -/

/-- The replica of a client that has missed nothing. -/
def Schema.replica (s : Schema) : Replica where
  tables := s.tables.keys
  lists t := (s.tables.get? t).map Table.lists

end KeyedSchema
