/-!
# Node — documents as they were read

A node is a JSON value the way a text spells it: repeated fields and their order are kept, and a
whole number is told from one with a fraction or an exponent.

Some texts follow the grammar and still have no value: half of a surrogate pair in a string, or a
number beyond the range of a double. Such a part is read as `broken`. It does no harm where the
value is never looked at, and fails whatever looks at it.
-/

namespace KeyedSchema

/-- A JSON value as it was read. -/
inductive Node
  | null
  | bool (value : Bool)
  /-- A number written with digits alone, `-0` excepted. -/
  | whole (value : Int)
  /-- Any other number. -/
  | fractional
  /-- A part without a value. -/
  | broken
  | text (value : String)
  | array (items : List Node)
  | object (fields : List (String × Node))
  deriving Repr

namespace Node

mutual

/-- Whether nothing in a node is broken and no more than `levels` arrays and objects are nested. -/
def isSound (levels : Nat) : Node → Bool
  | array items =>
      match levels with
      | 0 => false
      | inner + 1 => areSound inner items
  | object fields =>
      match levels with
      | 0 => false
      | inner + 1 => fieldsAreSound inner fields
  | broken => false
  | _ => true

def areSound (levels : Nat) : List Node → Bool
  | [] => true
  | item :: rest => item.isSound levels && areSound levels rest

def fieldsAreSound (levels : Nat) : List (String × Node) → Bool
  | [] => true
  | (_, value) :: rest => value.isSound levels && fieldsAreSound levels rest

end

end Node

end KeyedSchema
