import KeyedSchema.Proofs.Step

/-!
# Refusal — every edit checks before it changes anything

All public edits are atomic, with two exceptions that catch up with a key at their end: attaching a
relationship and leaving secondary-change mode. In a schema that can be reached, an edit that checks
first and is refused has changed nothing and told nothing.

Cascades look objects up, too, after they have changed the schema, and each of these look-ups could
refuse the edit halfway. None misses in a sound schema: `Edit.perform_normalizeKey`,
`Edit.ends_syncMappingOrder_of` and `Edit.perform_followers` say so of the order of keys and mappings
and of followers, and the cascades themselves keep the schema sound.
-/

namespace KeyedSchema

namespace Op

variable {s s' : Schema} {op : Op}

/-- Whether an operation never catches up with a key: all but attaching a relationship and leaving
secondary-change mode. -/
def checksFirst : Op → Bool
  | attachRelationship .. => false
  | setSecondaryChangeMode _ false => false
  | _ => true

/-- An operation that checks first does not stop halfway. -/
theorem not_halts (h : op.checksFirst = true) : ¬ op.Halts s s' := by
  cases op
  case attachRelationship => simp [checksFirst] at h
  case setSecondaryChangeMode t on =>
    cases on with
    | true => exact id
    | false => simp [checksFirst] at h
  all_goals exact id

/-- Every operation that checks first is atomic. -/
theorem edit_atomic (hs : s.Sound) (op : Op) (h : op.checksFirst = true) :
    op.edit.Atomic (fun _ s' => op.Does s s') s :=
  (edit_ends hs op).mono (fun _ _ h => h) fun _ _ hrefused =>
    hrefused.resolve_right (not_halts h)

end Op

/-- In a schema that can be reached, an operation that checks first and is refused has changed no
object, held back no event and told none. -/
theorem Op.untouched_of_refused {s s' : Schema} {op : Op} {e : EditError} (h : s.Reachable)
    (hop : op.checksFirst = true) (hrefused : op.perform s = (.error e, s')) : s.Untouched s' :=
  Edit.Ends.of_error (Op.edit_atomic h.sound op hop) hrefused

/-- A table `p` with the key column `id`, mapped to a column of the table `c`. -/
def mappedMoves : List Move :=
  [.edit (.addTable { name := "p" }),
    .edit (.addTable { name := "c" }),
    .edit (.addColumn ⟨1⟩ { name := "id", rank := some 0 }),
    .edit (.createRelationship { name := "r" }),
    .edit (.attachRelationship ⟨1⟩ ⟨1⟩ ⟨2⟩ true)]

/-- An identifying relationship from a table to itself is refused. It has used up a number, and that
is all there is to tell the two schemas apart. -/
theorem Op.untouched_of_cyclic : ∃ s s' : Schema, s.Reachable ∧ s.isLive ⟨1⟩ = true ∧
    (Op.createRelationship
      { name := "pp", identifying := true, parent := some ⟨1⟩, child := some ⟨1⟩ }).perform s =
        (.error (.identifyingCycle ⟨2⟩), s') ∧
    s.lastRelationship = 1 ∧ s'.lastRelationship = 2 ∧ s.Untouched s' := by
  have hreach : Schema.Reachable ((Moment.start {}).run mappedMoves).schema :=
    ⟨{}, mappedMoves, rfl⟩
  have hlive : ((Moment.start {}).run mappedMoves).schema.isLive ⟨1⟩ = true := by decide +kernel
  have hrefused : (Op.createRelationship
      { name := "pp", identifying := true, parent := some ⟨1⟩, child := some ⟨1⟩ }).perform
        ((Moment.start {}).run mappedMoves).schema = (.error (.identifyingCycle ⟨2⟩),
          { ((Moment.start {}).run mappedMoves).schema with lastRelationship := 2 }) := rfl
  exact ⟨_, _, hreach, hlive, hrefused, rfl, rfl, Op.untouched_of_refused hreach rfl hrefused⟩

end KeyedSchema
