import KeyedSchema.Schema.Basic

/-!
# Emission — raising, holding back and publishing events

Every change of a schema raises an event. The event belongs to a table: the source itself, the
owner of a column, the child of a relationship. While that table is in secondary-change mode its
events are held back in order; `release` publishes them when the mode is left. All other events
are published at once.
-/

namespace KeyedSchema

namespace Schema

/-- The table that an event belongs to. -/
def tableOf? (s : Schema) (e : Event) : Option TableId :=
  match e.source? with
  | none => none
  | some .schema => none
  | some (.table t) => some t
  | some (.column c) => s.owner? c
  | some (.relationship r) => (s.relationships.get? r).bind Relationship.child

/-- Whether the table's events are held back. -/
def isHolding (s : Schema) (t : TableId) : Bool :=
  (s.tables.get? t).any Table.inSecondaryChange

/-- The table that an event is to be held back for. -/
def holder? (s : Schema) (e : Event) : Option TableId := (s.tableOf? e).filter s.isHolding

/-- The events held back for a table, oldest first. -/
def heldFor (s : Schema) (t : TableId) : List Event := (s.held.get? t).getD []

/-- Tell an event: publish it, or hold it back for the table that it belongs to. -/
def raise (e : Event) (s : Schema) : Schema :=
  match s.holder? e with
  | some t => { s with
      held := s.held.insert t (s.heldFor t ++ [e])
      raised := s.raised ++ [e] }
  | none => { s with
      raised := s.raised ++ [e]
      published := s.published ++ [e] }

/-- Tell several events, one after the other. -/
def raiseAll (es : List Event) (s : Schema) : Schema := es.foldl (fun s e => s.raise e) s

/-- Publish a signal around a compound edit; such signals are never held back. -/
def signal (e : Event) (s : Schema) : Schema :=
  { s with raised := s.raised ++ [e], published := s.published ++ [e] }

/-- Publish the events held back for a table, in the order in which they were raised. -/
def release (t : TableId) (s : Schema) : Schema :=
  { s with held := s.held.erase t, published := s.published ++ s.heldFor t }

/-- Drop the events held back for a table. -/
def forget (t : TableId) (s : Schema) : Schema := { s with held := s.held.erase t }

/-! ## Changing one object -/

def changeTable (t : TableId) (f : Table → Table) (s : Schema) : Schema :=
  { s with tables := s.tables.modify t f }

def changeColumn (c : ColumnId) (f : Column → Column) (s : Schema) : Schema :=
  { s with columns := s.columns.modify c f }

def changeRelationship (r : RelationshipId) (f : Relationship → Relationship) (s : Schema) :
    Schema :=
  { s with relationships := s.relationships.modify r f }

end Schema

end KeyedSchema
