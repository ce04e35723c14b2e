import KeyedSchema.Event
import KeyedSchema.Text.Quoted

/-!
# Label — events in words

The texts in which reports show sources, children, properties and values.
-/

namespace KeyedSchema

def ObjectRef.label : ObjectRef → String
  | .schema => "schema"
  | .table t => t.label
  | .column c => c.label
  | .relationship r => r.label

def Child.label : Child → String
  | .table t => t.label
  | .column c => c.label
  | .exportedKey r => s!"exported {r.label}"
  | .importedKey r => s!"imported {r.label}"
  | .mapping m => s!"{m.pk.label} -> {m.fk.label}"

def Property.label : Property → String
  | .name => "name"
  | .physicalName => "physicalName"
  | .remarks => "remarks"
  | .dataType => "type"
  | .precision => "precision"
  | .scale => "scale"
  | .nullable => "nullable"
  | .autoIncrement => "autoIncrement"
  | .defaultValue => "defaultValue"
  | .primaryKeySeq => "primaryKeySeq"
  | .pkTable => "pkTable"
  | .fkTable => "fkTable"
  | .identifying => "identifying"
  | .pkCardinality => "pkCardinality"
  | .fkCardinality => "fkCardinality"
  | .updateRule => "updateRule"
  | .deleteRule => "deleteRule"
  | .deferrability => "deferrability"

def PropertyValue.label : PropertyValue → String
  | .null => "null"
  | .text s => Text.quote s
  | .bool b => if b then "true" else "false"
  | .int n => s!"{n}"
  | .type t => t.label
  | .table t => t.label
  | .cardinality c => c.label
  | .rule r => r.label
  | .deferrability d => d.label

/-- What an event says besides its kind and its source. -/
def Event.detail : Event → String
  | .childInserted _ child index => s!"{child.label} at {index}"
  | .childRemoved _ child index => s!"{child.label} from {index}"
  | .propertyChanged _ property old new => s!"{property.label}: {old.label} -> {new.label}"
  | .structureChanged _ => ""
  | .compoundEditStarted description => description
  | .compoundEditEnded => ""

end KeyedSchema
