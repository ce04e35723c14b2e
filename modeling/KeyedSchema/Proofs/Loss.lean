import KeyedSchema.Proofs.Withering

/-!
# Loss — which columns go with the stray mappings of a relationship

When a relationship is brought in line with the key of its parent, the mappings of a live
relationship are strays if their parent columns are not listed. Dropping them may take columns
along, and more columns with these. `Doomed` says which, without running anything: it is the least
set of columns that all of their live mappings leave.
-/

namespace KeyedSchema

namespace Schema

variable {s s' : Schema} {c : ColumnId} {r : RelationshipId} {key : List ColumnId}

/-- Whether a column goes when the stray mappings of `r` are dropped: live relationships map it, and
every one of its mappings is a stray one or comes from a column that goes as well. -/
inductive Doomed (r : RelationshipId) (key : List ColumnId) (s : Schema) : ColumnId → Prop
  | intro {c : ColumnId} (mapped : s.isRetained c = true)
      (leaves : ∀ r' m, s.isLive r' = true → m ∈ s.mappingsOf r' → m.fk = c →
        (r' = r → m.pk ∈ key) → Doomed r key s m.pk) : Doomed r key s c

/-- The doomed columns are those that wither when the strays of `r` go. -/
theorem doomed_iff_withers :
    s.Doomed r key c ↔ s.Withers (fun r' m => r' = r ∧ m.pk ∉ key) c := by
  constructor
  · intro h
    induction h with
    | intro mapped _ ih =>
        apply Withers.intro mapped
        intro r' m hl hm hfk hno
        exact ih r' m hl hm hfk fun heq => by_contra fun hnot => hno ⟨heq, hnot⟩
  · intro h
    induction h with
    | intro mapped _ ih =>
        apply Doomed.intro mapped
        intro r' m hl hm hfk hkey
        exact ih r' m hl hm hfk fun hstray => hstray.2 (hkey hstray.1)

/-- Dropping the strays of a live relationship withers what they leave. -/
theorem Sound.withered_sweep (hs : s.Sound) (hl : s.isLive r = true)
    (hw : WorksOff Prune.step [.sweep r key] s s') :
    Withered (fun r' m => r' = r ∧ m.pk ∉ key) s s' := by
  apply hs.withered ?may ?pending hw
  case may =>
    intro task ht
    obtain rfl := List.mem_singleton.mp ht
    exact ⟨hl, fun _ _ hstray => ⟨rfl, hstray⟩⟩
  case pending => exact fun _ _ _ _ hstray => ⟨_, List.mem_singleton_self _, hstray⟩

/-- Dropping the strays of a live relationship takes exactly the doomed columns along. -/
theorem Sound.doomed_iff (hs : s.Sound) (hl : s.isLive r = true)
    (hw : WorksOff Prune.step [.sweep r key] s s') :
    s.Doomed r key c ↔ s.columns.contains c = true ∧ s'.columns.contains c = false := by
  have hend := hs.withered_sweep hl hw
  rw [doomed_iff_withers]
  constructor
  · exact fun h => ⟨hs.stored_of_isRetained h.isRetained, hend.gone h hs⟩
  · exact fun h => (hend.gone_iff c h.1).mp h.2

/-- Dropping the strays of a live relationship takes a live mapping out as one of them, or together
with its parent column. -/
theorem Sound.unmapped_of_sweep {r' : RelationshipId} {m : Mapping} (hs : s.Sound)
    (hl : s.isLive r = true) (hw : WorksOff Prune.step [.sweep r key] s s')
    (hl' : s.isLive r' = true) (hm : m ∈ s.mappingsOf r') (hout : m ∉ s'.mappingsOf r') :
    (r' = r ∧ m.pk ∉ key) ∨ s'.columns.contains m.pk = false := by
  have hend := hs.withered_sweep hl hw
  exact ((hend.unmapped_iff r' m hl' hm).mp hout).imp_right fun hpk => hend.gone hpk hs

end Schema

end KeyedSchema
