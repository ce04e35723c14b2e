import KeyedSchema.Text.DisplayClass
import KeyedSchema.Text.GraphemeExtend

/-!
# Cells — the cells of a single character

A character takes one cell on a terminal, two if it is wide, or none if it is drawn onto a
neighbour.
-/

namespace KeyedSchema

namespace Text

/-- The cells that a character takes by itself. -/
def cellsOf (c : Char) : Nat :=
  match c.toNat with
  | 0x115f => 2
  | 0x17a4 => 2
  | 0x17d8 => 3
  | 0x2d7f => 1
  | _ =>
      if inClass graphemeExtend c || inClass invisible c then 0
      else if inClass wide c then 2
      else 1

/-- The joiner, which asks for the characters around it to be drawn as one. -/
def joiner : Char := '\u200d'

end Text

end KeyedSchema
