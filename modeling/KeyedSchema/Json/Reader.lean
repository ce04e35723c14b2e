import KeyedSchema.Json.Double
import KeyedSchema.Json.Node

/-!
# Reader — JSON texts

Reads a text that is one JSON value with blanks around it, and nothing else: no comments, no byte
order mark, no trailing commas. Every function returns what it read and the rest of the text.

Each call uses up one unit of `fuel`. A call either takes a character off the text or is the only
one between two that do, so twice the length of the text is enough.
-/

namespace KeyedSchema

namespace Node

/-! ## Blanks and digits -/

def isJsonBlank (c : Char) : Bool := c == ' ' || c == '\n' || c == '\t' || c == '\r'

def skipBlanks (cs : List Char) : List Char := cs.dropWhile isJsonBlank

/-- The number that decimal digits denote. -/
def ofDigits (digits : List Char) : Nat :=
  digits.foldl (fun n c => 10 * n + Double.digitValue c) 0

/-! ## Numbers -/

/-- The digits after a decimal point, of which there is at least one. -/
def readFraction (cs : List Char) : Option (List Char × List Char) :=
  match cs with
  | '.' :: rest =>
      match rest.takeWhile Char.isDigit with
      | [] => none
      | digits => some (digits, rest.dropWhile Char.isDigit)
  | _ => some ([], cs)

/-- The exponent of a number, which has at least one digit. -/
def readExponent (cs : List Char) : Option (Option Int × List Char) :=
  match cs with
  | [] => some (none, [])
  | c :: rest =>
      if c = 'e' ∨ c = 'E' then
        let (negative, rest) :=
          match rest with
          | '-' :: rest => (true, rest)
          | '+' :: rest => (false, rest)
          | _ => (false, rest)
        match rest.takeWhile Char.isDigit with
        | [] => none
        | digits =>
            let n : Int := ofDigits digits
            some (some (if negative then -n else n), rest.dropWhile Char.isDigit)
      else some (none, cs)

/-- The node that the parts of a number make. -/
def ofNumber (negative : Bool) (digits fraction : List Char) (exponent : Option Int) : Node :=
  if (Double.Scientific.ofDigits digits fraction (exponent.getD 0)).isOutOfRange then broken
  else
    match fraction, exponent with
    | [], none =>
        let value := ofDigits digits
        if !negative then whole value
        -- no integer is a negative zero
        else if value = 0 then fractional
        else whole (-value)
    | _, _ => fractional

def readNumber (cs : List Char) : Option (Node × List Char) :=
  let (negative, cs) :=
    match cs with
    | '-' :: rest => (true, rest)
    | _ => (false, cs)
  match cs.takeWhile Char.isDigit with
  | [] => none
  -- a leading zero stands alone
  | '0' :: _ :: _ => none
  | digits =>
      match readFraction (cs.dropWhile Char.isDigit) with
      | none => none
      | some (fraction, rest) =>
          match readExponent rest with
          | none => none
          | some (exponent, rest) => some (ofNumber negative digits fraction exponent, rest)

/-! ## Strings -/

/-- The value of a hexadecimal digit, in either case. -/
def hexValue? (c : Char) : Option Nat :=
  if '0' ≤ c ∧ c ≤ '9' then some (Double.digitValue c)
  else if 'a' ≤ c ∧ c ≤ 'f' then some (c.toNat - 'a'.toNat + 10)
  else if 'A' ≤ c ∧ c ≤ 'F' then some (c.toNat - 'A'.toNat + 10)
  else none

/-- The value of four hexadecimal digits. -/
def hexUnit? (a b c d : Char) : Option Nat :=
  [a, b, c, d].foldlM (fun n x => (hexValue? x).map (16 * n + ·)) 0

def isHighSurrogate (unit : Nat) : Bool := 0xd800 ≤ unit && unit < 0xdc00

def isLowSurrogate (unit : Nat) : Bool := 0xdc00 ≤ unit && unit < 0xe000

/-- The character that the two halves of a surrogate pair stand for. -/
def joinSurrogates (high low : Nat) : Char :=
  Char.ofNat (0x10000 + (high - 0xd800) * 0x400 + (low - 0xdc00))

/-- The character that a letter after a backslash stands for. -/
def escaped? (c : Char) : Option Char :=
  match c with
  | '"' => some '"'
  | '\\' => some '\\'
  | '/' => some '/'
  | 'b' => some '\x08'
  | 'f' => some '\x0c'
  | 'n' => some '\n'
  | 'r' => some '\r'
  | 't' => some '\t'
  | _ => none

/-- A part of a string as it is spelled: a character, or a UTF-16 unit given by its number. -/
inductive StringPart
  | char (c : Char)
  | unit (n : Nat)
  deriving DecidableEq, Repr

/-- The parts of a string after its opening quote; `done` has those before, last first. -/
def readParts (done : List StringPart) : List Char → Option (List StringPart × List Char)
  | [] => none
  | '"' :: rest => some (done.reverse, rest)
  | '\\' :: 'u' :: a :: b :: c :: d :: rest =>
      match hexUnit? a b c d with
      | none => none
      | some unit => readParts (.unit unit :: done) rest
  | '\\' :: e :: rest =>
      match escaped? e with
      | none => none
      | some c => readParts (.char c :: done) rest
  | c :: rest => if c.toNat < 0x20 then none else readParts (.char c :: done) rest

/-- The characters that the parts of a string stand for; half of a surrogate pair stands for none.
`done` has the characters before, last first. -/
def joinParts (done : List Char) : List StringPart → Option (List Char)
  | [] => some done.reverse
  | .char c :: rest => joinParts (c :: done) rest
  | .unit unit :: rest =>
      if isLowSurrogate unit then none
      else if isHighSurrogate unit then
        -- the first half of a character needs its second half right after it
        match rest with
        | .unit low :: rest =>
            if isLowSurrogate low then joinParts (joinSurrogates unit low :: done) rest else none
        | _ => none
      else joinParts (Char.ofNat unit :: done) rest

/-- Read a string after its opening quote. A string with half of a surrogate pair has no value. -/
def readString (cs : List Char) : Option (Option String × List Char) :=
  (readParts [] cs).map fun (parts, rest) => ((joinParts [] parts).map String.ofList, rest)

/-! ## Values -/

/-- An object, unless one of its names is broken. -/
def ofFields (fields : List (Option String × Node)) : Node :=
  match fields.mapM fun (name, value) => name.map fun name => (name, value) with
  | some fields => object fields
  | none => broken

mutual

/-- Read one value. -/
def readValue : Nat → List Char → Option (Node × List Char)
  | 0, _ => none
  | fuel + 1, cs =>
      match skipBlanks cs with
      | 'n' :: 'u' :: 'l' :: 'l' :: rest => some (null, rest)
      | 't' :: 'r' :: 'u' :: 'e' :: rest => some (bool true, rest)
      | 'f' :: 'a' :: 'l' :: 's' :: 'e' :: rest => some (bool false, rest)
      | '"' :: rest =>
          match readString rest with
          | none => none
          | some (content, rest) => some (content.elim broken text, rest)
      | '[' :: rest =>
          match skipBlanks rest with
          | ']' :: rest => some (array [], rest)
          | rest => readItems fuel [] rest
      | '\x7b' :: rest =>
          match skipBlanks rest with
          | '\x7d' :: rest => some (object [], rest)
          | rest => readFields fuel [] rest
      | rest => readNumber rest

/-- Read the items of an array, up to its closing bracket. -/
def readItems : Nat → List Node → List Char → Option (Node × List Char)
  | 0, _, _ => none
  | fuel + 1, done, cs =>
      match readValue fuel cs with
      | none => none
      | some (item, rest) =>
          match skipBlanks rest with
          | ',' :: rest => readItems fuel (item :: done) rest
          | ']' :: rest => some (array (item :: done).reverse, rest)
          | _ => none

/-- Read the fields of an object, up to its closing brace. -/
def readFields : Nat → List (Option String × Node) → List Char → Option (Node × List Char)
  | 0, _, _ => none
  | fuel + 1, done, cs =>
      match skipBlanks cs with
      | '"' :: rest =>
          match readString rest with
          | none => none
          | some (name, rest) =>
              match skipBlanks rest with
              | ':' :: rest =>
                  match readValue fuel rest with
                  | none => none
                  | some (value, rest) =>
                      match skipBlanks rest with
                      | ',' :: rest => readFields fuel ((name, value) :: done) rest
                      | '\x7d' :: rest => some (ofFields ((name, value) :: done).reverse, rest)
                      | _ => none
              | _ => none
      | _ => none

end

/-- Read a text that is one value with blanks around it. -/
def ofText? (s : String) : Option Node :=
  let cs := s.toList
  match readValue (2 * cs.length + 2) cs with
  | none => none
  | some (node, rest) => if (skipBlanks rest).isEmpty then some node else none

end Node

end KeyedSchema
