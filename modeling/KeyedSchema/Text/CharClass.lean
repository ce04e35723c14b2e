/-!
# CharClass — classes of characters as tables

A class of characters is given by its *flips*: the ascending list of the code points at which
membership changes, starting outside. A character is in the class exactly when an odd number of
flips lies at or below it.
-/

namespace KeyedSchema

namespace Text

/-- Whether a code point is in the class with the given flips. -/
def flipped (flips : List Nat) (n : Nat) : Bool :=
  match flips with
  | [] => false
  | a :: rest => if n < a then false else !flipped rest n

/-- Whether a character is in the class with the given flips. -/
def inClass (flips : List Nat) (c : Char) : Bool := flipped flips c.toNat

example : flipped [3, 5] 2 = false ∧ flipped [3, 5] 4 = true ∧ flipped [3, 5] 5 = false := by decide

end Text

end KeyedSchema
