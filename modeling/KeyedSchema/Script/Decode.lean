import KeyedSchema.Json.Decode
import KeyedSchema.Json.Reader
import KeyedSchema.Script.Basic

/-!
# Decode — scripts from their texts

A script and the columns in it are closed records. A step is an open one: its code stands in the
field `op`, anywhere among the fields of an object or in front of those of an array, and says which
fields it has. What a step has besides them is passed over but still has to have a value.
-/

namespace KeyedSchema

def ColumnSpec.ofNode? (n : Node) : Option ColumnSpec := do
  match ← n.fields? ["name", "type", "precision", "scale", "nullable", "primary_key_seq"] true with
  | [name, type, precision, scale, nullable, rank] =>
      some {
        name := ← Node.required Node.text? name
        type := ← Node.optional (SqlType.ofNode? true) .integer type
        precision := ← Node.optional Node.nat32? 0 precision
        scale := ← Node.optional Node.nat32? 0 scale
        nullable := ← Node.optional Node.bool? true nullable
        rank := ← Node.optional (Node.nullable? Node.nat32?) none rank }
  | _ => none

/-- A pair of column names. -/
def Node.namePair? : Node → Option (String × String)
  | .array [.text pk, .text fk] => some (pk, fk)
  | _ => none

/-- A list of what `read` reads. -/
def Node.listOf? {α : Type} (read : Node → Option α) (n : Node) : Option (List α) :=
  n.items?.bind fun items => items.mapM read

def RelationshipSpec.ofNode? (n : Node) : Option RelationshipSpec := do
  match ← n.fields? ["name", "parent", "child", "identifying", "auto_map", "mappings"] false with
  | [name, parent, child, identifying, autoMap, mappings] =>
      some {
        name := ← Node.optional (Node.nullable? Node.text?) none name
        parent := ← Node.required Node.text? parent
        child := ← Node.required Node.text? child
        identifying := ← Node.optional Node.bool? false identifying
        autoMap := ← Node.optional Node.bool? true autoMap
        mappings := ← Node.optional (Node.listOf? Node.namePair?) [] mappings }
  | _ => none

/-- The texts of an open record that has nothing but texts. -/
def Node.texts? (names : List String) (n : Node) : Option (List String) := do
  (← n.fields? names false).mapM (Node.required Node.text?)

/-- The step with the given code and fields. -/
def Step.ofFields? (code : String) (n : Node) : Option Step := do
  match code with
  | "create_table" =>
      match ← n.fields? ["name", "columns"] false with
      | [name, columns] =>
          some (.createTable (← Node.required Node.text? name)
            (← Node.optional (Node.listOf? ColumnSpec.ofNode?) [] columns))
      | _ => none
  | "add_column" =>
      match ← n.fields? ["table", "column"] false with
      | [table, column] =>
          some (.addColumn (← Node.required Node.text? table)
            (← Node.required ColumnSpec.ofNode? column))
      | _ => none
  | "set_primary_key" =>
      match ← n.fields? ["table", "column", "seq"] false with
      | [table, column, rank] =>
          some (.setPrimaryKey (← Node.required Node.text? table)
            (← Node.required Node.text? column)
            (← Node.optional (Node.nullable? Node.nat32?) none rank))
      | _ => none
  | "remove_column" =>
      match ← n.texts? ["table", "column"] with
      | [table, column] => some (.removeColumn table column)
      | _ => none
  | "rename_column" =>
      match ← n.texts? ["table", "column", "name"] with
      | [table, column, name] => some (.renameColumn table column name)
      | _ => none
  | "create_relationship" => return .createRelationship (← RelationshipSpec.ofNode? n)
  | "remove_relationship" =>
      match ← n.texts? ["name"] with
      | [name] => some (.removeRelationship name)
      | _ => none
  | "remove_table" =>
      match ← n.texts? ["name"] with
      | [name] => some (.removeTable name)
      | _ => none
  | _ => none

/-- The field that has the code of a step. -/
def Step.codeField : String := "op"

/-- The code of a step and its fields. -/
def Step.split? : Node → Option (String × Node)
  | .object fields =>
      match fields.partition fun (name, _) => name == codeField with
      | ([(_, .text code)], rest) => some (code, .object rest)
      | _ => none
  | .array (.text code :: rest) => some (code, .array rest)
  | _ => none

/-- The most arrays and objects that a text may nest. -/
def Script.maxLevels : Nat := 127

/-- The arrays and objects that a step stands in: its script and the list of steps. -/
def Step.outerLevels : Nat := 2

def Step.ofNode? (n : Node) : Option Step := do
  if !n.isSound (Script.maxLevels - Step.outerLevels) then none
  let (code, fields) ← Step.split? n
  Step.ofFields? code fields

def Script.ofNode? (n : Node) : Option Script := do
  match ← n.fields? ["config", "steps"] true with
  | [config, steps] =>
      some {
        config := ← Node.optional (Node.nullable? Config.ofNode?) none config
        steps := ← Node.required (Node.listOf? Step.ofNode?) steps }
  | _ => none

/-- The script that a text spells. -/
def Script.ofText? (text : String) : Option Script := (Node.ofText? text).bind Script.ofNode?

end KeyedSchema
