import KeyedSchema.Json.Document
import KeyedSchema.Script.Basic

/-!
# Document — scripts as JSON

A script is shown with every field spelled out, and each step as its code and its fields.
-/

namespace KeyedSchema

def ColumnSpec.toJson (c : ColumnSpec) : Json :=
  .object
    [("name", .text c.name),
      ("type", c.type.toJson),
      ("precision", .ofNat c.precision),
      ("scale", .ofNat c.scale),
      ("nullable", .bool c.nullable),
      ("primary_key_seq", .ofNat? c.rank)]

def RelationshipSpec.toJson (r : RelationshipSpec) : Json :=
  .object
    [("name", .ofText? r.name),
      ("parent", .text r.parent),
      ("child", .text r.child),
      ("identifying", .bool r.identifying),
      ("auto_map", .bool r.autoMap),
      ("mappings", .array (r.mappings.map fun (pk, fk) => .array [.text pk, .text fk]))]

/-- The fields of a step. -/
def Step.fields : Step → Json
  | createTable name columns =>
      .object [("name", .text name), ("columns", .array (columns.map ColumnSpec.toJson))]
  | addColumn table column => .object [("table", .text table), ("column", column.toJson)]
  | setPrimaryKey table column rank =>
      .object [("table", .text table), ("column", .text column), ("seq", .ofNat? rank)]
  | removeColumn table column => .object [("table", .text table), ("column", .text column)]
  | renameColumn table column name =>
      .object [("table", .text table), ("column", .text column), ("name", .text name)]
  | createRelationship rel => rel.toJson
  | removeRelationship name => .object [("name", .text name)]
  | removeTable name => .object [("name", .text name)]

def Step.toJson (s : Step) : Json := .array [.text s.code, s.fields]

def Script.toJson (s : Script) : Json :=
  .object
    [("config", s.config.elim .null Config.toJson),
      ("steps", .array (s.steps.map Step.toJson))]

end KeyedSchema
