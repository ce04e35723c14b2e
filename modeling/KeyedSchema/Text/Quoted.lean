import KeyedSchema.Text.GraphemeExtend
import KeyedSchema.Text.Unprintable

/-!
# Quoted — texts between quotes, with everything visible

A quoted text stands on one line and shows every character: quotes, backslashes and the usual
control characters are escaped by name, and what has no glyph of its own, or would be drawn onto
its neighbour, by its code point.
-/

namespace KeyedSchema

namespace Text

/-- A code point in lower-case hexadecimal digits. -/
def hexDigits (n : Nat) : List Char := Nat.toDigits 16 n

/-- A character as it stands within quotes. -/
def quoteChar (c : Char) : List Char :=
  match c with
  | '\x00' => ['\\', '0']
  | '\t' => ['\\', 't']
  | '\r' => ['\\', 'r']
  | '\n' => ['\\', 'n']
  | '\\' => ['\\', '\\']
  | '"' => ['\\', '"']
  | c =>
      if inClass graphemeExtend c || inClass unprintable c then
        ['\\', 'u', '\x7b'] ++ hexDigits c.toNat ++ ['\x7d']
      else [c]

/-- A text between quotes. -/
def quote (s : String) : String := String.ofList ('"' :: s.toList.flatMap quoteChar ++ ['"'])

end Text

end KeyedSchema
