import KeyedSchema.EditError
import KeyedSchema.Schema.Emission

/-!
# Edit — edits of a schema

An `Edit` reads and changes a schema and may be refused. What it did before it was refused stays
done: the outcome of `perform` has a schema on both sides.
-/

namespace KeyedSchema

/-- An edit of a schema that yields an `α` or is refused. -/
abbrev Edit (α : Type) := ExceptT EditError (StateM Schema) α

namespace Edit

variable {α : Type}

/-- Carry out an edit: its yield or the cause of its refusal, and the schema it leaves behind. -/
def perform (x : Edit α) (s : Schema) : Except EditError α × Schema := x.run s

/-- Change the schema; this is never refused. -/
def change (f : Schema → Schema) : Edit Unit := modify f

/-- Ask the schema. -/
def ask (f : Schema → α) : Edit α := do return f (← get)

/-- Tell an event. -/
def raise (e : Event) : Edit Unit := change (Schema.raise e)

/-! ## Looking objects up -/

/-- The given value, or a refusal without one. -/
def require (value : Option α) (e : EditError) : Edit α :=
  match value with
  | some a => pure a
  | none => throw e

def table (t : TableId) : Edit Table := do
  require ((← get).tables.get? t) (.unknownTable t)

def column (c : ColumnId) : Edit Column := do
  require ((← get).columns.get? c) (.unknownColumn c)

def relationship (r : RelationshipId) : Edit Relationship := do
  require ((← get).relationships.get? r) (.unknownRelationship r)

/-- The table that owns a column; a column of no table counts as unknown. -/
def ownerOf (c : ColumnId) : Edit TableId := do
  require (← column c).table (.unknownColumn c)

/-! ## Compound edits -/

/-- Carry out an edit between the two signals of a compound edit. The closing signal is sent also
when the edit is refused. -/
def compound (description : String) (x : Edit α) : Edit α := ExceptT.mk do
  modify (Schema.signal (.compoundEditStarted description))
  let outcome ← x.run
  modify (Schema.signal .compoundEditEnded)
  return outcome

/-- A compound edit where `when` holds, a plain one otherwise. -/
def compoundIf (when : Bool) (description : String) (x : Edit α) : Edit α :=
  if when then compound description x else x

/-- Carry out an edit and yield its outcome; the result is never refused. -/
def attempt (x : Edit α) : Edit (Except EditError α) := ExceptT.lift x.run

/-- The edit that only has the given outcome. -/
def ofOutcome (outcome : Except EditError α) : Edit α := ExceptT.mk (pure outcome)

end Edit

end KeyedSchema
