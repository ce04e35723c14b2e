import KeyedSchema.Cardinality
import KeyedSchema.ReferentialRule

/-!
# Config — the defaults of a schema

What a new relationship starts with, and whether new tables start with automatic key cascades.
-/

namespace KeyedSchema

/-- The configuration of a schema. -/
structure Config where
  parentCardinality : Cardinality := .parentDefault
  childCardinality : Cardinality := .childDefault
  updateRule : ReferentialAction := .noAction
  deleteRule : ReferentialAction := .noAction
  deferrability : Deferrability := .notDeferrable
  /-- Whether tables that join the schema have automatic key cascades. -/
  magicByDefault : Bool := true
  deriving DecidableEq, Repr

instance : Inhabited Config := ⟨{}⟩

end KeyedSchema
