import KeyedSchema.Config
import KeyedSchema.Json.Node
import KeyedSchema.SqlType

/-!
# Decode — values from nodes

A record may be written as an object or as an array of its fields in order. In an object, repeated
fields are refused; fields the record does not have are refused if the record is *closed* and
passed over otherwise. In an array, fields at the end may be missing, but nothing may follow them.

One of several named values is written as its name, or as an object with the name as its only
field and nothing as its value.
-/

namespace KeyedSchema

namespace Node

/-! ## Simple values -/

def text? : Node → Option String
  | text s => some s
  | _ => none

def bool? : Node → Option Bool
  | bool b => some b
  | _ => none

def items? : Node → Option (List Node)
  | array items => some items
  | _ => none

/-- The largest 32-bit number without a sign. -/
def largest32 : Nat := 4294967295

/-- A whole number of 32 bits without a sign. -/
def nat32? : Node → Option Nat
  | whole n => if 0 ≤ n ∧ n ≤ largest32 then some n.toNat else none
  | _ => none

/-- A value that may be null. -/
def nullable? {α : Type} (read : Node → Option α) : Node → Option (Option α)
  | null => some none
  | n => (read n).map some

/-! ## Records -/

/-- The fields of a record, in the order of `names`. -/
def fields? (names : List String) (closed : Bool) : Node → Option (List (Option Node))
  | object fields =>
      if (closed && fields.any fun (name, _) => name ∉ names) ||
          names.any fun name => (fields.filter fun (other, _) => other == name).length > 1
      then none
      else some (names.map fun name => fields.lookup name)
  -- a record may also be written as the list of its fields
  | array items =>
      if items.length > names.length then none
      else some (items.map some ++ List.replicate (names.length - items.length) none)
  | _ => none

/-- A field that has to be there. -/
def required {α : Type} (read : Node → Option α) (field : Option Node) : Option α :=
  field.bind read

/-- A field with a value to fall back on. -/
def optional {α : Type} (read : Node → Option α) (fallback : α) (field : Option Node) : Option α :=
  field.elim (some fallback) read

/-! ## Named values -/

/-- The name and the payload of one of several named values. -/
def variant? : Node → Option (String × Option Node)
  | text name => some (name, none)
  | object [(name, payload)] => some (name, some payload)
  | _ => none

/-- Whether a payload says nothing. Within a step, an empty object does so too. -/
def isEmptyPayload (inStep : Bool) : Option Node → Bool
  | none => true
  | some null => true
  | some (object []) => inStep
  | _ => false

end Node

/-! ## Types, rules and configurations -/

/-- A data type: the code of a named type, or the object of a vendor code. -/
def SqlType.ofNode? (inStep : Bool) (n : Node) : Option SqlType := do
  let (name, payload) ← n.variant?
  if name = otherCode then
    match payload with
    | some (.whole code) => if isVendorCode code then some (.other code) else none
    | _ => none
  else
    let type ← ofCode? name
    if Node.isEmptyPayload inStep payload then some type else none

def ReferentialAction.ofNode? (n : Node) : Option ReferentialAction := do
  let (name, payload) ← n.variant?
  if Node.isEmptyPayload false payload then ofCode? name else none

def Deferrability.ofNode? (n : Node) : Option Deferrability := do
  let (name, payload) ← n.variant?
  if Node.isEmptyPayload false payload then ofCode? name else none

def Cardinality.ofNode? (n : Node) : Option Cardinality := n.text?.bind ofText?

/-- A configuration. Every field may be missing, and unknown fields are passed over. -/
def Config.ofNode? (n : Node) : Option Config := do
  let fields ← n.fields?
    ["default_pk_cardinality", "default_fk_cardinality", "default_update_rule",
      "default_delete_rule", "default_deferrability", "magic_enabled_by_default"] false
  match fields with
  | [parentCardinality, childCardinality, updateRule, deleteRule, deferrability, magic] =>
      let start : Config := {}
      some {
        parentCardinality :=
          ← Node.optional Cardinality.ofNode? start.parentCardinality parentCardinality
        childCardinality := ← Node.optional Cardinality.ofNode? start.childCardinality childCardinality
        updateRule := ← Node.optional ReferentialAction.ofNode? start.updateRule updateRule
        deleteRule := ← Node.optional ReferentialAction.ofNode? start.deleteRule deleteRule
        deferrability := ← Node.optional Deferrability.ofNode? start.deferrability deferrability
        magicByDefault := ← Node.optional Node.bool? start.magicByDefault magic }
  | _ => none

end KeyedSchema
