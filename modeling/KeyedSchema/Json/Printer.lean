import KeyedSchema.Json.Value
import KeyedSchema.Text.Quoted

/-!
# Printer — documents as texts

A document is printed with every item and every field on a line of its own, two blanks further in
than what it belongs to. Empty arrays and objects stay on one line. Strings keep all characters
but quotes, backslashes and control characters, which are escaped.
-/

namespace KeyedSchema

namespace Json

/-- The hexadecimal digits of a number, at least four of them. -/
def fourDigits (n : Nat) : List Char :=
  let digits := Text.hexDigits n
  List.replicate (4 - digits.length) '0' ++ digits

/-- A character as it stands in a string. -/
def escapeChar (c : Char) : List Char :=
  match c with
  | '"' => ['\\', '"']
  | '\\' => ['\\', '\\']
  | '\x08' => ['\\', 'b']
  | '\x0c' => ['\\', 'f']
  | '\n' => ['\\', 'n']
  | '\r' => ['\\', 'r']
  | '\t' => ['\\', 't']
  | c => if c.toNat < 0x20 then ['\\', 'u'] ++ fourDigits c.toNat else [c]

/-- A string between quotes. -/
def printString (s : String) : String :=
  String.ofList ('"' :: s.toList.flatMap escapeChar ++ ['"'])

/-- The start of a line at a depth. -/
def newLine (depth : Nat) : String := String.ofList ('\n' :: List.replicate (2 * depth) ' ')

/-- Entries between brackets, each on a line of its own. -/
def printBlock (opening closing : String) (depth : Nat) (entries : List String) : String :=
  if entries.isEmpty then opening ++ closing
  else
    opening ++ newLine (depth + 1) ++ (("," ++ newLine (depth + 1)).intercalate entries) ++
      newLine depth ++ closing

mutual

/-- A document as it stands `depth` levels deep. -/
def printAt (depth : Nat) : Json → String
  | null => "null"
  | bool b => if b then "true" else "false"
  | int n => s!"{n}"
  | text s => printString s
  | array items => printBlock "[" "]" depth (printItems (depth + 1) items)
  | object fields => printBlock "\x7b" "\x7d" depth (printFields (depth + 1) fields)

def printItems (depth : Nat) : List Json → List String
  | [] => []
  | item :: rest => item.printAt depth :: printItems depth rest

def printFields (depth : Nat) : List (String × Json) → List String
  | [] => []
  | (name, value) :: rest =>
      (printString name ++ ": " ++ value.printAt depth) :: printFields depth rest

end

/-- A document as a text. -/
def print (j : Json) : String := j.printAt 0

end Json

end KeyedSchema
