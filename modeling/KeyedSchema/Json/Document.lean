import KeyedSchema.Json.Value
import KeyedSchema.Snapshot

/-!
# Document — configurations and snapshots as JSON
-/

namespace KeyedSchema

def SqlType.toJson : SqlType → Json
  | .other code => .object [(SqlType.otherCode, .int code)]
  | t => .text t.code

def Config.toJson (c : Config) : Json :=
  .object
    [("default_pk_cardinality", .text c.parentCardinality.text),
      ("default_fk_cardinality", .text c.childCardinality.text),
      ("default_update_rule", .text c.updateRule.code),
      ("default_delete_rule", .text c.deleteRule.code),
      ("default_deferrability", .text c.deferrability.code),
      ("magic_enabled_by_default", .bool c.magicByDefault)]

def ColumnSnapshot.toJson (c : ColumnSnapshot) : Json :=
  .object
    [("name", .text c.name),
      ("physical_name", .text c.physicalName),
      ("data_type", c.type.toJson),
      ("precision", .ofNat c.precision),
      ("scale", .ofNat c.scale),
      ("nullable", .bool c.nullable),
      ("primary_key_seq", .ofNat? c.rank)]

def TableSnapshot.toJson (t : TableSnapshot) : Json :=
  .object
    [("id", .ofNat t.id.val),
      ("name", .text t.name),
      ("physical_name", .text t.physicalName),
      ("columns", .array (t.columns.map ColumnSnapshot.toJson)),
      ("exported_keys", .array (t.exportedKeys.map fun r => .ofNat r.val)),
      ("imported_keys", .array (t.importedKeys.map fun r => .ofNat r.val)),
      ("secondary_change_mode", .bool t.inSecondaryChange),
      ("magic_enabled", .bool t.magicEnabled)]

def RelationshipSnapshot.toJson (r : RelationshipSnapshot) : Json :=
  .object
    [("id", .ofNat r.id.val),
      ("name", .text r.name),
      ("physical_name", .text r.physicalName),
      ("pk_table", .ofText? r.parent),
      ("fk_table", .ofText? r.child),
      ("identifying", .bool r.identifying),
      ("live", .bool r.live),
      ("pk_cardinality", .text r.parentCardinality.text),
      ("fk_cardinality", .text r.childCardinality.text),
      ("update_rule", .text r.updateRule.code),
      ("delete_rule", .text r.deleteRule.code),
      ("deferrability", .text r.deferrability.code),
      ("mappings", .array (r.mappings.map fun (pk, fk) => .array [.text pk, .text fk]))]

def SchemaSnapshot.toJson (s : SchemaSnapshot) : Json :=
  .object
    [("tables", .array (s.tables.map TableSnapshot.toJson)),
      ("relationships", .array (s.relationships.map RelationshipSnapshot.toJson))]

end KeyedSchema
