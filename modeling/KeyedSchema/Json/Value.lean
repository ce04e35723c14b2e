/-!
# Value — documents to be written

The JSON values that reports consist of. Numbers are whole, and the fields of an object keep the
order in which they are listed.
-/

namespace KeyedSchema

/-- A JSON value. -/
inductive Json
  | null
  | bool (value : Bool)
  | int (value : Int)
  | text (value : String)
  | array (items : List Json)
  | object (fields : List (String × Json))
  deriving Repr

namespace Json

def ofText? (value : Option String) : Json := value.elim null text

def ofNat (n : Nat) : Json := int n

def ofNat? (value : Option Nat) : Json := value.elim null ofNat

end Json

end KeyedSchema
