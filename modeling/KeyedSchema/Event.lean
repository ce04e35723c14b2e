import KeyedSchema.Cardinality
import KeyedSchema.ReferentialRule
import KeyedSchema.Relationship
import KeyedSchema.SqlType

/-!
# Event — what a schema tells its listeners

Every change of a schema is told as an event. An event has a *source*, the object that changed,
except for the two signals that open and close a compound edit.
-/

namespace KeyedSchema

/-- The object that an event comes from. -/
inductive ObjectRef
  | schema
  | table (id : TableId)
  | column (id : ColumnId)
  | relationship (id : RelationshipId)
  deriving DecidableEq, Repr

/-- What was put into an object or taken out of it. -/
inductive Child
  | table (id : TableId)
  | column (id : ColumnId)
  | exportedKey (id : RelationshipId)
  | importedKey (id : RelationshipId)
  | mapping (m : Mapping)
  deriving DecidableEq, Repr

/-- The attributes whose changes are told. -/
inductive Property
  | name
  | physicalName
  | remarks
  | dataType
  | precision
  | scale
  | nullable
  | autoIncrement
  | defaultValue
  | primaryKeySeq
  | pkTable
  | fkTable
  | identifying
  | pkCardinality
  | fkCardinality
  | updateRule
  | deleteRule
  | deferrability
  deriving DecidableEq, Repr

/-- An attribute's value before or after a change. -/
inductive PropertyValue
  | null
  | text (value : String)
  | bool (value : Bool)
  | int (value : Nat)
  | type (value : SqlType)
  | table (value : TableId)
  | cardinality (value : Cardinality)
  | rule (value : ReferentialAction)
  | deferrability (value : Deferrability)
  deriving DecidableEq, Repr

/-- A change of a schema. -/
inductive Event
  /-- A child was put into `source` at `index`. -/
  | childInserted (source : ObjectRef) (child : Child) (index : Nat)
  /-- A child was taken out of `source` at `index`. -/
  | childRemoved (source : ObjectRef) (child : Child) (index : Nat)
  | propertyChanged (source : ObjectRef) (property : Property) (old new : PropertyValue)
  /-- The order within `source` changed. -/
  | structureChanged (source : ObjectRef)
  | compoundEditStarted (description : String)
  | compoundEditEnded
  deriving DecidableEq, Repr

/-! ## Values of optional attributes -/

namespace PropertyValue

def ofText? (value : Option String) : PropertyValue := value.elim null text

def ofInt? (value : Option Nat) : PropertyValue := value.elim null int

def ofTable? (value : Option TableId) : PropertyValue := value.elim null table

end PropertyValue

/-! ## Sources and kinds -/

namespace Event

/-- The object that the event comes from; the signals around compound edits have none. -/
def source? : Event → Option ObjectRef
  | childInserted source _ _ => some source
  | childRemoved source _ _ => some source
  | propertyChanged source _ _ _ => some source
  | structureChanged source => some source
  | compoundEditStarted _ => none
  | compoundEditEnded => none

/-- Whether the event opens or closes a compound edit. -/
def isCompoundSignal (e : Event) : Bool := e.source?.isNone

/-- The kind of event, as reports name it. -/
def kind : Event → String
  | childInserted .. => "child_inserted"
  | childRemoved .. => "child_removed"
  | propertyChanged .. => "property_changed"
  | structureChanged _ => "structure_changed"
  | compoundEditStarted _ => "compound_edit_started"
  | compoundEditEnded => "compound_edit_ended"

end Event

end KeyedSchema
