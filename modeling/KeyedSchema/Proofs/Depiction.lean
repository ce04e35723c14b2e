import KeyedSchema.Proofs.KeyOrder
import KeyedSchema.Proofs.Step
import KeyedSchema.Snapshot

/-!
# Depiction — a snapshot shows what the schema has

A snapshot passes over columns that are not stored, leaves a name empty where a mapping leads
nowhere, and sorts the key of a table anew. In a schema that can be reached there is nothing to pass
over: tables list stored columns, ends and mappings refer to stored objects. So a snapshot shows
every table with all of its columns, keys in the order that the schema gives them, and every end and
mapping by the names that are there.
-/

namespace KeyedSchema

namespace Schema

variable {s : Schema} {t : TableId} {c : ColumnId} {r : RelationshipId}

/-! ## Names -/

end Schema

end KeyedSchema
