import KeyedSchema.Proofs.Lagging

/-!
# Placement — where a column goes in a key

A column that is given a rank goes in front of the first other column of its key whose rank is not
smaller, and the key is numbered from zero. `keyPlacing` says what the key comes to; the ranks of
the other columns may have gaps and ties before, and still these columns keep their order.

The promotions that follow are about keys further down. The schema is acyclic, so none of them is
the key in which the column was placed.
-/

namespace KeyedSchema

namespace Schema

open Relation

variable {s s₁ s' : Schema} {t : TableId} {c : ColumnId} {i k depth : Nat} {col : Column}
  {key : List ColumnId}

/-- The key of a table with a column placed in front of the first other column that has the rank
`k` or a larger one, and at the end if there is none. -/
def keyPlacing (s : Schema) (t : TableId) (c : ColumnId) (k : Nat) : List ColumnId :=
  let others := (s.primaryKey t).filter fun x => x ≠ c
  let ahead := fun x => (s.rank? x).any fun rank => rank < k
  others.takeWhile ahead ++ c :: others.dropWhile ahead

theorem keyPlacing_congr (hkey : s'.primaryKey t = s.primaryKey t)
    (hrank : ∀ x, s'.rank? x = s.rank? x) : s'.keyPlacing t c k = s.keyPlacing t c k := by
  simp only [keyPlacing, hkey, hrank]

/-! ## The order in which a key is numbered -/

/-- What an element does not satisfy does not see it come. -/
theorem filter_insertIdx {α : Type} {p : α → Bool} {x : α} (hx : p x = false) (i : Nat)
    (xs : List α) : (xs.insertIdx i x).filter p = xs.filter p := by
  induction i generalizing xs with
  | zero => simp [hx]
  | succ i ih =>
      cases xs with
      | nil => rfl
      | cons y ys => simp [List.filter_cons, ih]

theorem keyRanks_filter_ne (s : Schema) (t : TableId) (c : ColumnId) :
    (s.keyRanks t).filter (fun e => e.1 ≠ c) =
      ((s.columnsOf t).filter fun x => x ≠ c).filterMap fun x => (s.rank? x).map (x, ·) := by
  unfold keyRanks
  induction s.columnsOf t with
  | nil => rfl
  | cons x xs ih =>
      by_cases hx : x = c
      · cases hr : s.rank? x <;> simp_all
      · cases hr : s.rank? x <;> simp_all

/-- The ranks of all columns of a key but one depend on these columns alone. -/
theorem keyRanks_others (hcols : (s₁.columnsOf t).filter (fun x => x ≠ c) =
      (s.columnsOf t).filter fun x => x ≠ c)
    (hranks : ∀ x, x ≠ c → s₁.rank? x = s.rank? x) :
    (s₁.keyRanks t).filter (fun e => e.1 ≠ c) = (s.keyRanks t).filter fun e => e.1 ≠ c := by
  rw [keyRanks_filter_ne, keyRanks_filter_ne, hcols]
  refine List.filterMap_congr fun x hx => ?_
  rw [hranks x (by simpa using (List.mem_filter.mp hx).2)]

/-- In the ranks of a key one entry is about a column of the key. -/
theorem Sound.keyRanks_filter_eq (hs : s.Sound) (hmem : (c, k) ∈ s.keyRanks t) :
    (s.keyRanks t).filter (fun e => e.1 = c) = [(c, k)] := by
  have heq : (s.keyRanks t).filter (fun e => e.1 = c) =
      (s.keyRanks t).filter fun e => e == (c, k) := by
    refine List.filter_congr fun e he => ?_
    have hinj : e.1 = c → e = (c, k) :=
      List.inj_on_of_nodup_map (hs.keyRanks_nodup t) he hmem
    simpa [beq_eq_decide] using ⟨hinj, congrArg Prod.fst⟩
  rw [heq, List.filter_beq, List.count_eq_one_of_mem _ hmem]
  · rfl
  · exact (hs.keyRanks_nodup t).of_map

/-- A column that is given a rank is numbered where it is placed. -/
theorem Sound.keyOrder_placed (hs : s₁.Sound) (hown : s₁.owner? c = some t)
    (hrank : s₁.rank? c = some k)
    (hcols : (s₁.columnsOf t).filter (fun x => x ≠ c) = (s.columnsOf t).filter fun x => x ≠ c)
    (hranks : ∀ x, x ≠ c → s₁.rank? x = s.rank? x) :
    (s₁.keyOrder t (some c)).map Prod.fst = s.keyPlacing t c k := by
  have hmem : (c, k) ∈ s₁.keyRanks t := mem_keyRanks.mpr ⟨(hs.listed t c).mpr hown, hrank⟩
  have horder : s₁.keyOrder t (some c) =
      insertOn Prod.snd (c, k) ((sortOn Prod.snd (s.keyRanks t)).filter fun e => e.1 ≠ c) := by
    have hothers := keyRanks_others hcols hranks
    rw [filter_sortOn, ← hothers]
    simpa [keyOrder] using sortOn_placed (hs.keyRanks_filter_eq hmem)
  have hkey : ((sortOn Prod.snd (s.keyRanks t)).filter fun e => e.1 ≠ c).map Prod.fst =
      (s.primaryKey t).filter fun x => x ≠ c := by
    rw [primaryKey, List.filter_map]
    rfl
  rw [horder, map_insertOn, hkey]
  · rfl
  · intro e he
    have he := (mem_sortOn _ _ e).mp (List.mem_filter.mp he).1
    simp [(mem_keyRanks.mp he).2]

/-! ## A numbered key -/

/-- Work downstream leaves a numbered key as it is. -/
theorem NumberedAs.grow {tasks : List Grow} (h : NumberedAs t key s) (hs : s.Sound)
    (ha : s.Acyclic) (hbelow : ∀ task ∈ tasks, Downstream t s task)
    (hw : WorksOff Grow.step tasks s s') : NumberedAs t key s' := by
  have hg := (hs.grow (fun task ht => (hbelow task ht).stays.ready) hw).2
  refine h.congr (fun x => ⟨fun hx => ?_, fun hx => ?_⟩) fun x hx => ?_
  · exact key_of_grow hs ha hbelow hw hx.1 hx.2
  · exact ⟨(hg.owner? (contains_of_owner? hx.1)).trans hx.1, hg.isKey hx.2⟩
  · exact hs.rank_elsewhere (s.fences_strictly_below t) (fun task ht => (hbelow task ht).stays) hw
      hx (ha t)

/-- A column that has joined its key stays where the key has been numbered. -/
theorem Sound.numberedAs_join (hs : s.Sound) (ha : s.Acyclic) (hown : s.owner? c = some t)
    (hcasc : s.cascades t = true) (hw : WorksOff Grow.step [.join depth c] s s') :
    NumberedAs t ((s.keyOrder t (some c)).map Prod.fst) s' := by
  have hre := reranks_normalizeKey t (some c) s
  have hs₁ := hre.sound hs
  cases hw with
  | task hw =>
      simp only [Grow.step, hown, hcasc, if_true, List.append_nil] at hw
      refine (hs.numberedAs_normalizeKey t (some c)).grow hs₁
        (ha.inherits hre.sameFrame.inherits) (fun task htask => ?_) hw
      obtain ⟨r, hr, rfl⟩ := List.mem_map.mp htask
      obtain ⟨hl, hp⟩ := (hs.mem_liveExportsOf_iff r t).mp hr
      exact ⟨(hre.sameFrame.isLive r).trans hl, t, (hre.sameFrame.parent? r).trans hp,
        (hre.owner? c).trans hown, .refl⟩

theorem SameObjects.numberedAs (h : SameObjects s s') (hkey : NumberedAs t key s) :
    NumberedAs t key s' :=
  hkey.congr (fun x => by rw [h.sameShape.owner?, isKey_congr (h.rank? x)]) fun x _ => h.rank? x

theorem SameObjects.keyPlacing (h : SameObjects s s') : s'.keyPlacing t c k = s.keyPlacing t c k :=
  keyPlacing_congr (primaryKey_congr (h.reranks.columnsOf t) fun x _ => h.rank? x) h.rank?

/-! ## Columns that are given a rank -/

/-- The key after a column has got another rank. -/
theorem Places.numberedAs (h : Places c k s s') (hs : s.Sound) (ha : s.Acyclic)
    (hown : s.owner? c = some t) (hcasc : s.cascades t = true) (hne : s.rank? c ≠ some k) :
    NumberedAs t (s.keyPlacing t c k) s' := by
  have hplaced : ∀ old, ((s.changeRank c old (some k)).keyOrder t (some c)).map Prod.fst =
      s.keyPlacing t c k := by
    intro old
    have hre := reranks_changeRank c old (some k) s
    have hrank := rank?_changeRank c old (some k) s (contains_of_owner? hown)
    refine (hre.sound hs).keyOrder_placed ((hre.owner? c).trans hown) ?_ ?_ fun x hx => ?_
    · rw [hrank, if_pos rfl]
    · rw [hre.columnsOf]
    · rw [hrank, if_neg hx]
  cases h with
  | joins hrank hw =>
      have hre := reranks_changeRank c none (some k) s
      rw [← hplaced none]
      exact (hre.sound hs).numberedAs_join (ha.inherits hre.sameFrame.inherits)
        ((hre.owner? c).trans hown) ((hre.sameFrame.cascades t).trans hcasc) hw
  | @moves old t' hrank hown' =>
      obtain rfl := Option.some.inj (hown.symm.trans hown')
      rw [← hplaced (some old), if_pos hcasc]
      have hre := reranks_changeRank c (some old) (some k) s
      exact (hre.sound hs).numberedAs_normalizeKey t (some c)
  | stays hrank => exact absurd hrank hne

/-- The key after a column has come into the table with a rank. -/
theorem Inserts.numberedAs (h : Inserts t i col s s') (hs : s.Sound) (ha : s.Acyclic)
    (hcasc : s.cascades t = true) (hrank : col.rank = some k) :
    NumberedAs t (s.keyPlacing t s.nextColumn k) s' := by
  have hkey : col.isKey = true := by simp [Column.isKey, hrank]
  have hs₁ := hs.placeColumn h.table h.index col
  have hf := sameFrame_placeColumn t i col s
  have hown : (s.placeColumn t i col).owner? s.nextColumn = some t := by
    rw [owner?_placeColumn, if_pos rfl]
  have hplaced : ((s.placeColumn t i col).keyOrder t (some s.nextColumn)).map Prod.fst =
      s.keyPlacing t s.nextColumn k := by
    refine hs₁.keyOrder_placed hown ?_ ?_ fun x hx => ?_
    · rw [rank?_placeColumn, if_pos rfl, hrank]
    · rw [columnsOf_placeColumn h.table, if_pos rfl]
      exact filter_insertIdx (by simp) i (s.columnsOf t)
    · rw [rank?_placeColumn, if_neg hx]
  rw [← hplaced]
  have hw := h.worksOff
  rw [if_pos hkey] at hw
  exact hs₁.numberedAs_join (ha.inherits hf.inherits) hown ((hf.cascades t).trans hcasc) hw

/-- Giving a column a rank that it does not have places it. -/
theorem Sound.setPrimaryKeySeq_places (hs : s.Sound) (ha : s.Acyclic) (hown : s.owner? c = some t)
    (hcasc : s.cascades t = true) (hne : s.rank? c ≠ some k) :
    (Edit.setPrimaryKeySeq c (some k)).Ends
      (fun _ s' => s'.Sound ∧ NumberedAs t (s.keyPlacing t c k) s') (fun _ _ => False) s := by
  have hc := contains_of_owner? hown
  refine (Edit.setPrimaryKeySeq_some_ends hs hc k).imp fun _ s' hdoes => ⟨?_, ?_⟩
  · exact hdoes.sound hs fun s₁ _ ho hs₁ hplaces => hplaces.sound hs₁ (ho.columns ▸ hc)
  · obtain ⟨s₁, s₂, h₁, hplaces, h₂⟩ := hdoes
    have hkey := hplaces.numberedAs (hs.of_sameObjects h₁) (ha.inherits h₁.sameFrame.inherits)
      ((h₁.sameShape.owner? c).trans hown) ((h₁.sameFrame.cascades t).trans hcasc)
      (h₁.rank? c ▸ hne)
    exact h₂.numberedAs (h₁.keyPlacing ▸ hkey)

/-- A column that comes with a rank is placed. -/
theorem Sound.insertColumn_places (hs : s.Sound) (ha : s.Acyclic) (hcasc : s.cascades t = true)
    (hi : i ≤ (s.columnsOf t).length) (hrank : col.rank = some k) :
    (Edit.insertColumn t i col).Ends (fun c s' => c = s.nextColumn ∧ s'.Sound ∧
      NumberedAs t (s.keyPlacing t s.nextColumn k) s') (fun _ _ => False) s := by
  obtain ⟨tbl, htbl, -⟩ := (Option.any_eq_true _ _).mp hcasc
  have ht := Roster.contains_of_get? htbl
  refine (Edit.insertColumn_ends hs ht hi col).imp fun c s' ⟨hc, hdoes⟩ => ⟨hc, ?_, ?_⟩
  · exact hdoes.sound hs fun _ _ _ hs₁ hinserts => hinserts.sound hs₁
  · obtain ⟨s₁, s₂, h₁, hinserts, h₂⟩ := hdoes
    have hkey := hinserts.numberedAs (hs.of_sameObjects h₁) (ha.inherits h₁.sameFrame.inherits)
      ((h₁.sameFrame.cascades t).trans hcasc) hrank
    rw [h₁.keyPlacing, nextColumn, h₁.lastColumn] at hkey
    exact h₂.numberedAs hkey

/-- What comes of an operation that numbers a key. -/
theorem exists_numbered {op : Op} {reply : Reply}
    (h : op.edit.Ends (fun a s' => a = reply ∧ s'.Sound ∧ NumberedAs t key s')
      (fun _ _ => False) s) :
    ∃ s', op.perform s = (.ok reply, s') ∧ s'.primaryKey t = key ∧
      (s'.primaryKey t).map s'.rank? = (List.range (s'.primaryKey t).length).map some := by
  obtain ⟨_, s', hperform, rfl, hs', hkey⟩ := h.exists_ok
  exact ⟨s', hperform, hkey.primaryKey_eq hs', (hkey.numbered hs').ranks⟩

/-- In a schema that can be reached, a column of a table that cascades may be given any rank that it
does not have, and a column with a rank may be put at any place of the table. Either way the column
goes in front of the first other column of the key that had the same rank or a larger one, the
others keep their order, and the ranks along the key are then `0`, `1`, … -/
theorem Reachable.key_placing (h : s.Reachable) (hcasc : s.cascades t = true) :
    (∀ c k, s.owner? c = some t → s.rank? c ≠ some k →
      ∃ s', (Op.setPrimaryKeySeq c (some k)).perform s = (.ok .done, s') ∧
        s'.primaryKey t = s.keyPlacing t c k ∧
        (s'.primaryKey t).map s'.rank? = (List.range (s'.primaryKey t).length).map some) ∧
      ∀ i col k, i ≤ (s.columnsOf t).length → col.rank = some k →
        ∃ s', (Op.insertColumn t i col).perform s = (.ok (.column s.nextColumn), s') ∧
          s'.primaryKey t = s.keyPlacing t s.nextColumn k ∧
          (s'.primaryKey t).map s'.rank? = (List.range (s'.primaryKey t).length).map some := by
  constructor
  · intro c k hown hne
    refine exists_numbered ((Edit.ends_map _ _).mpr ?_)
    exact (h.sound.setPrimaryKeySeq_places h.acyclic hown hcasc hne).imp fun _ _ hkey => ⟨rfl, hkey⟩
  · intro i col k hi hrank
    refine exists_numbered ((Edit.ends_map _ _).mpr ?_)
    refine (h.sound.insertColumn_places h.acyclic hcasc hi hrank).imp fun c s' hkey => ?_
    exact ⟨congrArg Reply.column hkey.1, hkey.2⟩

/-- A key with a gap and a tie, made while nothing cascaded, and a table that follows it. -/
def gappedMoves : List Move :=
  [.edit (.addTable { name := "a" }),
    .edit (.addTable { name := "b" }),
    .edit (.createRelationship { name := "ab", identifying := true }),
    .edit (.attachRelationship ⟨1⟩ ⟨1⟩ ⟨2⟩ true),
    .edit (.setMagicEnabled ⟨1⟩ false),
    .edit (.addColumn ⟨1⟩ { name := "x", rank := some 3 }),
    .edit (.addColumn ⟨1⟩ { name := "y", rank := some 3 }),
    .edit (.addColumn ⟨1⟩ { name := "z", rank := some 9 }),
    .edit (.addColumn ⟨1⟩ { name := "w" }),
    .edit (.setMagicEnabled ⟨1⟩ true)]

/-- At the rank of the tie a column goes in front of it, and in the gap between the others. -/
theorem key_placing_gapped : ∃ s : Schema, s.Reachable ∧ s.cascades ⟨1⟩ = true ∧
    s.primaryKey ⟨1⟩ = [⟨1⟩, ⟨2⟩, ⟨3⟩] ∧ s.owner? ⟨4⟩ = some ⟨1⟩ ∧
    (∃ s', (Op.setPrimaryKeySeq ⟨4⟩ (some 3)).perform s = (.ok .done, s') ∧
      s'.primaryKey ⟨1⟩ = [⟨4⟩, ⟨1⟩, ⟨2⟩, ⟨3⟩] ∧
      [⟨4⟩, ⟨1⟩, ⟨2⟩, ⟨3⟩].map s'.rank? = [some 0, some 1, some 2, some 3]) ∧
    ∃ s', (Op.insertColumn ⟨1⟩ 0 { name := "v", rank := some 5 }).perform s =
        (.ok (.column ⟨5⟩), s') ∧
      s'.primaryKey ⟨1⟩ = [⟨1⟩, ⟨2⟩, ⟨5⟩, ⟨3⟩] ∧
      [⟨1⟩, ⟨2⟩, ⟨5⟩, ⟨3⟩].map s'.rank? = [some 0, some 1, some 2, some 3] := by
  have hreach : Schema.Reachable ((Moment.start {}).run gappedMoves).schema :=
    ⟨{}, gappedMoves, rfl⟩
  have hcasc : ((Moment.start {}).run gappedMoves).schema.cascades ⟨1⟩ = true := by decide +kernel
  have hown : ((Moment.start {}).run gappedMoves).schema.owner? ⟨4⟩ = some ⟨1⟩ := by
    decide +kernel
  have hplaced : ((Moment.start {}).run gappedMoves).schema.keyPlacing ⟨1⟩ ⟨4⟩ 3 =
      [⟨4⟩, ⟨1⟩, ⟨2⟩, ⟨3⟩] := by decide +kernel
  have hinserted : ((Moment.start {}).run gappedMoves).schema.keyPlacing ⟨1⟩ ⟨5⟩ 5 =
      [⟨1⟩, ⟨2⟩, ⟨5⟩, ⟨3⟩] := by decide +kernel
  refine ⟨_, hreach, hcasc, by decide +kernel, hown, ?_, ?_⟩
  · obtain ⟨s', hok, hkey, hranks⟩ := (hreach.key_placing hcasc).1 ⟨4⟩ 3 hown (by decide +kernel)
    rw [hplaced] at hkey
    rw [hkey] at hranks
    exact ⟨s', hok, hkey, hranks⟩
  · obtain ⟨s', hok, hkey, hranks⟩ := (hreach.key_placing hcasc).2 0
      { name := "v", rank := some 5 } 5 (Nat.zero_le _) rfl
    have hnext : ((Moment.start {}).run gappedMoves).schema.nextColumn = ⟨5⟩ := by decide +kernel
    rw [hnext] at hok hkey
    rw [hinserted] at hkey
    rw [hkey] at hranks
    exact ⟨s', hok, hkey, hranks⟩

end Schema

end KeyedSchema
