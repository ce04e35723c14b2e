import KeyedSchema.Schema.Edit

/-!
# Beyond — where cascades exceed their bounds

Cascades call themselves: a promotion leads to further promotions, a removal to further removals,
and a new name or attribute is passed on from column to column. Such a recursion has a bound on its
nesting; a loop that reads the schema anew in every round has one on its rounds.

`Beyond` says what happens in place of a step that exceeds a bound. It is left open here, so that
edits can be asked whether it ever matters; edits are carried out with `Beyond.standard`.
-/

namespace KeyedSchema

/-- What happens where a cascade exceeds its bound. -/
class Beyond where
  /-- In place of one more nested promotion. -/
  promote : ColumnId → Edit Unit
  /-- In place of one more nested removal. -/
  remove : ColumnId → Edit Column
  /-- In place of one more nested renaming. -/
  rename : ColumnId → Edit Unit
  /-- In place of one more nested change of a shared attribute. -/
  share : ColumnId → Edit Unit
  /-- In place of one more round over the mappings of a relationship. -/
  round : RelationshipId → Edit Unit

/-- Nothing happens beyond the bounds, and a column to be removed there is unknown. -/
instance Beyond.standard : Beyond where
  promote _ := pure ()
  remove c := throw (.unknownColumn c)
  rename _ := pure ()
  share _ := pure ()
  round _ := pure ()

end KeyedSchema
