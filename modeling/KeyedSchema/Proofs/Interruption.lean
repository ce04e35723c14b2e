import KeyedSchema.Proofs.Refusal

/-!
# Interruption — when catching up stops halfway

Leaving secondary-change mode and attaching a relationship catch up with a key after they have
changed the schema, and there they can still be refused. They are refused exactly if a column of the
key is doomed when the turn of a relationship comes whose strays are dropped. That is the only
look-up of theirs that can miss: normalizing the key that is caught up with always goes through
(`Edit.perform_normalizeKey`), and so does putting the mappings of a relationship into its order
(`Edit.ends_syncMappingOrder_of`).
-/

namespace KeyedSchema

namespace Schema

/-- In a schema that can be reached, leaving the mode is refused exactly if catching up with the
table's key loses a column of it, and an attachment that has passed its checks is refused exactly if
catching up with the child's key does. -/
theorem Reachable.refuses_iff_fails {s : Schema} (h : s.Reachable) :
    (∀ t, s.tables.contains t = true → ((Op.setSecondaryChangeMode t false).edit.Refuses s ↔
      s.isHolding t = true ∧ ExitFails t s)) ∧
    (∀ t, (Edit.leave (.secondaryChange t true)).Refuses s ↔ ExitFails t s) ∧
    ∀ r p ch auto, Attachable r p ch s → ((Op.attachRelationship r p ch auto).edit.Refuses s ↔
      AttachFails r p ch auto (s.attachStart r)) := by
  have hs := h.sound
  refine ⟨fun t ht => Edit.Ends.refuses_iff ?_, fun t => Edit.Ends.refuses_iff ?_,
    fun r p ch auto hatt => Edit.Ends.refuses_iff ?_⟩
  · unfold Op.edit
    rw [Edit.ends_map]
    refine (Edit.setSecondaryChangeMode_false_ends hs t).mono (fun _ s' hok => ?_)
      fun _ s' hrefused => ?_
    · rintro ⟨hholds, hfails⟩
      rcases hok with ⟨-, ⟨hnot, -⟩ | ⟨-, hexits⟩⟩
      · rw [hholds] at hnot
        exact Bool.noConfusion hnot
      · exact hexits.not_exitFails hs hfails
    · rcases hrefused with ⟨hnot, -⟩ | ⟨-, hholds, hhalts⟩
      · rw [ht] at hnot
        exact Bool.noConfusion hnot
      · exact ⟨hholds, hhalts.fails⟩
  · exact (Edit.exitSecondaryChange_ends hs t).mono (fun _ _ hok => hok.not_exitFails hs)
      fun _ _ hrefused => hrefused.fails
  · unfold Op.edit
    rw [Edit.ends_map]
    refine (Edit.attachRelationship_ends hs r p ch auto).mono (fun _ s' hok => ?_)
      fun _ s' hrefused => ?_
    · obtain ⟨-, s₁, hattaches, -⟩ := hok
      exact hattaches.not_attachFails
    · rcases hrefused with ⟨hnot, -⟩ | ⟨-, s₁, hhalts, -⟩
      · exact absurd hatt hnot
      · exact hhalts.fails

/-- A table whose key column `id` is mapped to another of its columns; then, with cascades held back,
that column takes the place of `id` in the key. -/
def displacingMoves : List Move :=
  [.edit (.addTable { name := "a" }),
    .edit (.addColumn ⟨1⟩ { name := "id", rank := some 0 }),
    .edit (.createRelationship { name := "aa" }),
    .edit (.attachRelationship ⟨1⟩ ⟨1⟩ ⟨1⟩ true),
    .edit (.setSecondaryChangeMode ⟨1⟩ true),
    .edit (.setPrimaryKeySeq ⟨2⟩ (some 0)),
    .edit (.setPrimaryKeySeq ⟨1⟩ none)]

/-- Catching up drops the stray mapping of `id`, with it the only key column, and is refused when it
comes to map that column: it has already gone, although the operation is refused. -/
theorem refuses_iff_fails_displacing : ∃ s s' : Schema, s.Reachable ∧
    (Op.setSecondaryChangeMode ⟨1⟩ false).perform s = (.error (.unknownColumn ⟨2⟩), s') ∧
    s.columns.contains ⟨2⟩ = true ∧ s'.columns.contains ⟨2⟩ = false ∧ ExitFails ⟨1⟩ s := by
  have hreach : Schema.Reachable ((Moment.start {}).run displacingMoves).schema :=
    ⟨{}, displacingMoves, rfl⟩
  have hends : ((Op.setSecondaryChangeMode ⟨1⟩ false).perform
        ((Moment.start {}).run displacingMoves).schema).1 = .error (.unknownColumn ⟨2⟩) ∧
      ((Op.setSecondaryChangeMode ⟨1⟩ false).perform
        ((Moment.start {}).run displacingMoves).schema).2.columns.contains ⟨2⟩ = false := by
    decide +kernel
  rcases hrefused : (Op.setSecondaryChangeMode ⟨1⟩ false).perform
    ((Moment.start {}).run displacingMoves).schema with ⟨outcome, s'⟩
  rw [hrefused] at hends
  obtain ⟨rfl, hout⟩ := hends
  have hfails := (hreach.refuses_iff_fails.1 ⟨1⟩ (by decide +kernel)).mp ⟨_, s', hrefused⟩
  exact ⟨_, s', hreach, hrefused, by decide +kernel, hout, hfails.2⟩

end Schema

end KeyedSchema
