/-!
# Double — the range of the numbers in a text

A number is read into a significand of 64 bits and a power of ten. The digits that no longer fit
are left out; those before the decimal point still count towards the power. The significand and
the power are rounded to the 53 bits of a double each, and the number is out of range when their
product rounds beyond the largest double.
-/

namespace KeyedSchema

namespace Double

/-- A natural number rounded to a number of bits; a half goes to the even neighbour. -/
def roundBits (bits n : Nat) : Nat :=
  let unit := Nat.pow 2 (n.log2 + 1 - bits)
  let low := n / unit
  let rest := n % unit
  if unit < 2 * rest ∨ (2 * rest = unit ∧ low % 2 = 1) then (low + 1) * unit else low * unit

example : roundBits 2 6 = 6 ∧ roundBits 2 9 = 8 ∧ roundBits 2 10 = 8 ∧ roundBits 2 14 = 16 := by
  decide

/-- The nearest number that a double holds. -/
def nearest (n : Nat) : Nat := roundBits 53 n

/-- The least number that rounds beyond the largest double. -/
def limit : Nat := Nat.pow 2 1024 - Nat.pow 2 970

/-! ## Significands -/

/-- The value of a decimal digit. -/
def digitValue (c : Char) : Nat := c.toNat - '0'.toNat

/-- A number with as many digits put behind it as fit in 64 bits, and the digits that are left. -/
def takeDigits (n : Nat) : List Char → Nat × List Char
  | [] => (n, [])
  | c :: rest =>
      let next := 10 * n + digitValue c
      if next < Nat.pow 2 64 then takeDigits next rest else (n, c :: rest)

/-- A number as `significand * 10 ^ exponent`. -/
structure Scientific where
  significand : Nat
  exponent : Int
  deriving DecidableEq, Repr

/-- The number with the given digits before and after the decimal point, times a power of ten. A
digit that is left out before the point raises the power by one, and one that is kept after it lowers
the power by one. -/
def Scientific.ofDigits (digits fraction : List Char) (exponent : Int) : Scientific :=
  let (whole, dropped) := takeDigits 0 digits
  let (significand, ignored) := takeDigits whole fraction
  ⟨significand, exponent + dropped.length - (fraction.length - ignored.length)⟩

/-- Whether a number is out of range. So is every number, zero excepted, with a power of ten that is
out of range itself, and none with a negative power. -/
def Scientific.isOutOfRange (x : Scientific) : Bool :=
  if x.significand = 0 ∨ x.exponent < 0 then false
  else if 308 < x.exponent then true
  else limit ≤ nearest x.significand * nearest (Nat.pow 10 x.exponent.toNat)

end Double

end KeyedSchema
