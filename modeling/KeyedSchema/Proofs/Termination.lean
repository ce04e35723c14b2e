import KeyedSchema.Proofs.Completion
import KeyedSchema.Proofs.Rounds

/-!
# Termination — every cascade comes to its end

An edit that never exceeds a bound does the same whatever would happen beyond it, and one that does
exceed it can be told apart by a `Beyond` that says so. On a schema that can be reached no edit does:
promotions are nested at most as deep as there are tables; removals, renamings and changes of shared
attributes at most one deeper than there are columns.
-/

namespace KeyedSchema

namespace Schema

open Edit

/-- Whether nothing that is done to a schema exceeds a bound: edits, whole or in part, end as they
do by the standard, whatever `b` says that happens beyond the bounds. -/
structure StaysWithin (b : Beyond) (s : Schema) : Prop where
  /-- Every public edit. -/
  edits : ∀ op, @Op.perform b op s = @Op.perform .standard op s
  /-- Every end of a scope. -/
  closings : ∀ opened, (@leave b opened).perform s = (@leave .standard opened).perform s
  /-- Promotions that may be nested as deep as there are tables. -/
  promotions : ∀ c depth, s.columns.contains c = true → s.tables.size ≤ depth →
    (@promoteWithin b depth c).perform s = (@promoteWithin .standard s.tables.size c).perform s
  /-- Removals that may be nested one deeper than there are columns. -/
  removals : ∀ c depth, s.columns.size + 1 ≤ depth →
    (@removeColumnWithin b depth c).perform s =
      (@removeColumnWithin .standard (s.columns.size + 1) c).perform s
  /-- Renamings that may be nested one deeper than there are columns. -/
  renamings : ∀ name c depth, s.columns.size + 1 ≤ depth →
    (@renameWithin b name depth c).perform s =
      (@renameWithin .standard name (s.columns.size + 1) c).perform s
  /-- Changes of a shared attribute that may be nested one deeper than there are columns. -/
  attributes : ∀ a c depth, s.columns.size + 1 ≤ depth →
    (@setSharedWithin b a depth c).perform s =
      (@setSharedWithin .standard a (s.columns.size + 1) c).perform s
  /-- Rounds over stray mappings, one more than there are mappings. -/
  rounds : ∀ r key n, (s.mappingsOf r).length + 1 ≤ n →
    (@dropStrayMappings b r key n).perform s =
      (@dropStrayMappings .standard r key ((s.mappingsOf r).length + 1)).perform s

theorem Sound.staysWithin {s : Schema} (hs : s.Sound) (ha : s.Acyclic) (b : Beyond) :
    s.StaysWithin b where
  edits := by
    intro op
    exact Op.edit_agrees hs ha op
  closings := by
    intro opened
    exact leave_agrees hs ha opened
  promotions := by
    intro c depth hc hdepth
    obtain ⟨t, ht⟩ := hs.owned c hc
    have hshallow := hs.shallow ha (hs.contains_table_of_owner ht) (Nat.le_refl _)
    exact promoteWithin_alike _ s depth hdepth s c t hs (.refl s) ht hshallow
  removals := by
    intro c depth hdepth
    exact removeColumnWithin_agrees _ depth c s (Nat.lt_succ_self _) hdepth
  renamings := by
    intro name c depth hdepth
    exact renameWithin_agrees name _ depth c s (Nat.lt_succ_of_le (unsettled_le_size _ s)) hdepth
  attributes := by
    intro a c depth hdepth
    exact setSharedWithin_agrees a _ depth c s (Nat.lt_succ_of_le (unsettled_le_size _ s)) hdepth
  rounds := by
    intro r key n hn
    exact dropStrayMappings_agrees key _ n s (Nat.lt_succ_self _) hn

end Schema

/-- On a schema that can be reached nothing exceeds a bound; and on every schema, also amid an edit,
the loops that take mappings out one by one end after as many rounds as there are mappings to take
out, in the schema in which all of them are out. -/
theorem Schema.Reachable.cascades_end {s : Schema} (h : s.Reachable) (b : Beyond) :
    s.StaysWithin b ∧
    ∀ s' : Schema, s'.relationships.keys.Nodup → ∀ r,
      (∀ p, Rounds (dropFirst? p r) ((s'.mappingsOf r).countP p) s' (s'.unmapWhere p r)) ∧
      Rounds (dropLast? r) (s'.mappingsOf r).length s' (s'.clearMappings r) := by
  refine ⟨h.sound.staysWithin h.acyclic b, ?_⟩
  intro s' hnodup r
  constructor
  · intro p
    exact rounds_unmapWhere p r _ s' hnodup rfl
  · exact rounds_clearMappings r _ s' hnodup rfl

/-- What makes every step beyond a bound visible: it is refused. -/
@[reducible] def Beyond.refusing : Beyond where
  promote c := throw (.unknownColumn c)
  remove c := throw (.unknownColumn c)
  rename c := throw (.unknownColumn c)
  share c := throw (.unknownColumn c)
  round r := throw (.unknownRelationship r)

/-- Two tables whose keys are mapped to each other, so that their columns follow each other in a
circle. -/
def circlingMoves : List Move :=
  [.edit (.addTable { name := "a" }),
    .edit (.addTable { name := "b" }),
    .edit (.addColumn ⟨1⟩ { name := "id", rank := some 0 }),
    .edit (.createRelationship { name := "ab" }),
    .edit (.attachRelationship ⟨1⟩ ⟨1⟩ ⟨2⟩ true),
    .edit (.setPrimaryKeySeq ⟨2⟩ (some 0)),
    .edit (.createRelationship { name := "ba" }),
    .edit (.attachRelationship ⟨2⟩ ⟨2⟩ ⟨1⟩ true)]

/-- A new name goes once around the circle, and is not refused. -/
theorem Schema.cascades_end_circling : ∃ s : Schema, s.Reachable ∧ s.followers ⟨1⟩ = [⟨2⟩] ∧
    s.followers ⟨2⟩ = [⟨1⟩] ∧
    (@Op.perform .refusing (.setColumnName ⟨1⟩ "key") s).1 = .ok .done ∧
    s.StaysWithin .refusing ∧
    ∀ s' : Schema, s'.relationships.keys.Nodup → ∀ r,
      (∀ p, Rounds (dropFirst? p r) ((s'.mappingsOf r).countP p) s' (s'.unmapWhere p r)) ∧
      Rounds (dropLast? r) (s'.mappingsOf r).length s' (s'.clearMappings r) := by
  have hreach : Schema.Reachable ((Moment.start {}).run circlingMoves).schema :=
    ⟨{}, circlingMoves, rfl⟩
  refine ⟨_, hreach, by decide +kernel, by decide +kernel, by decide +kernel, ?_⟩
  exact hreach.cascades_end .refusing

end KeyedSchema
