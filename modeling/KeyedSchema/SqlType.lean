/-!
# SqlType — data types of columns

A data type is one of fifteen named types or a vendor code. Each named type has a *code*, used in
documents (`big_int`), and a *label*, used in reports and events (`BIGINT`).
-/

namespace KeyedSchema

/-- The data type of a column. -/
inductive SqlType
  | boolean
  | smallInt
  | integer
  | bigInt
  | decimal
  | numeric
  | real
  | double
  | char
  | varchar
  | text
  | date
  | time
  | timestamp
  | blob
  | other (code : Int)
  deriving DecidableEq, Repr

namespace SqlType

/-! ## Classes of types -/

def isNumeric : SqlType → Bool
  | .smallInt | .integer | .bigInt | .decimal | .numeric | .real | .double => true
  | _ => false

def isStringLike : SqlType → Bool
  | .char | .varchar | .text => true
  | _ => false

def isTemporal : SqlType → Bool
  | .date | .time | .timestamp => true
  | _ => false

/-! ## Codes and labels -/

/-- The code of vendor types, which carry a number besides. -/
def otherCode : String := "other"

/-- Vendor codes are signed 32-bit numbers. -/
def isVendorCode (code : Int) : Bool := -2147483648 ≤ code && code ≤ 2147483647

def code : SqlType → String
  | .boolean => "boolean"
  | .smallInt => "small_int"
  | .integer => "integer"
  | .bigInt => "big_int"
  | .decimal => "decimal"
  | .numeric => "numeric"
  | .real => "real"
  | .double => "double"
  | .char => "char"
  | .varchar => "varchar"
  | .text => "text"
  | .date => "date"
  | .time => "time"
  | .timestamp => "timestamp"
  | .blob => "blob"
  | .other _ => otherCode

/-- The types that are known by their code alone. -/
def named : List SqlType :=
  [.boolean, .smallInt, .integer, .bigInt, .decimal, .numeric, .real, .double, .char, .varchar,
    .text, .date, .time, .timestamp, .blob]

/-- The named type that has the given code. -/
def ofCode? (text : String) : Option SqlType := named.find? fun t => t.code == text

def label : SqlType → String
  | .boolean => "BOOLEAN"
  | .smallInt => "SMALLINT"
  | .integer => "INTEGER"
  | .bigInt => "BIGINT"
  | .decimal => "DECIMAL"
  | .numeric => "NUMERIC"
  | .real => "REAL"
  | .double => "DOUBLE"
  | .char => "CHAR"
  | .varchar => "VARCHAR"
  | .text => "TEXT"
  | .date => "DATE"
  | .time => "TIME"
  | .timestamp => "TIMESTAMP"
  | .blob => "BLOB"
  | .other code => s!"OTHER({code})"

end SqlType

end KeyedSchema
