import Gridplan.Proofs.Formula.Cells
import Gridplan.Proofs.Layout.Cells
import Gridplan.Proofs.Layout.Success

namespace Gridplan.Layout

open Formula

variable {b : Block} {keys : List String} {places : List Nat} {low n : Nat}

theorem position_of_mem {schema : List String} {name : String} (h : name ∈ schema) :
    position schema name = .ok (schema.idxOf name) := by
  have hlt : schema.findIdx (· == name) < schema.length := List.idxOf_lt_length_of_mem h
  rw [position, List.idxOf?, List.findIdx?_eq_guard_findIdx_lt, Option.guard,
    if_pos (by simpa using hlt)]
  rfl

theorem mapM_position (h : keys ⊆ b.schema) :
    keys.mapM (position b.schema) = .ok (keys.map b.schema.idxOf) :=
  Outcome.mapM_ok fun _ hk ↦ position_of_mem (h hk)

theorem mapM_column (h : keys ⊆ b.schema) :
    keys.mapM b.column = .ok (keys.map fun k ↦ b.columnAt (b.schema.idxOf k)) := by
  refine Outcome.mapM_ok fun k hk ↦ ?_
  rw [Block.column, position_of_mem (h hk)]
  rfl

theorem consecutive_range' (low n : Nat) : consecutive (List.range' low n) = true := by
  induction n generalizing low with
  | zero => rfl
  | succ n ih =>
    cases n with
    | zero => rfl
    | succ n =>
      have hrest := ih (low + 1)
      rw [List.range'_succ] at hrest
      rw [List.range'_succ, List.range'_succ, consecutive, hrest]
      simp

theorem mergeSort_of_perm_range' (h : places.Perm (List.range' low n)) :
    places.mergeSort (· ≤ ·) = List.range' low n :=
  ((List.mergeSort_perm ..).trans h).eq_of_pairwise' (List.pairwise_mergeSort' (· ≤ ·) places)
    (List.pairwise_le_range' ..)

theorem keyColumns_of_neighbours (hkeys : 2 ≤ keys.length) (hin : keys ⊆ b.schema)
    (hlow : (keys.map b.schema.idxOf).Perm (List.range' low keys.length)) :
    keyColumns b keys = .ok (keyRange b low (low + (keys.length - 1))) := by
  have hmin : (keys.map b.schema.idxOf).min? = some low := by
    refine List.min?_eq_some_iff.mpr ⟨hlow.mem_iff.mpr ?_, fun i hi ↦ ?_⟩
    · rw [List.mem_range'_1]
      omega
    · exact (List.mem_range'_1.mp (hlow.mem_iff.mp hi)).1
  have hmax : (keys.map b.schema.idxOf).max? = some (low + (keys.length - 1)) := by
    refine List.max?_eq_some_iff.mpr ⟨hlow.mem_iff.mpr ?_, fun i hi ↦ ?_⟩
    · rw [List.mem_range'_1]
      omega
    · have := List.mem_range'_1.mp (hlow.mem_iff.mp hi)
      omega
  rw [keyColumns, mapM_position hin, Outcome.ok_bind, mergeSort_of_perm_range' hlow,
    if_pos (consecutive_range' ..), hmin, hmax]
  · rfl
  · rintro k rfl
    simp at hkeys

def keyCells (b : Block) (keys : List String) : List (List Cell) :=
  keys.map fun k ↦ b.cellsAt (b.schema.idxOf k)

theorem columns?_beside_column (hwhole : b.part = none) :
    (Term.beside (keys.map fun k ↦ b.columnAt (b.schema.idxOf k))).columns? =
      some (keyCells b keys) := by
  rw [Term.columns?_beside fun k _ ↦ Block.columns?_columnAt hwhole (b.schema.idxOf k),
    ← List.map_eq_flatMap]
  rfl

def rangeCells (b : Block) (i : Nat) : List Cell :=
  stretch (some b.sheet) (b.range.row + 1) b.range.rowEnd (b.range.col + i)

theorem columns?_keyRange (hwhole : b.part = none) (hn : 0 < n) :
    (keyRange b low (low + (n - 1))).columns? = some ((List.range' low n).map (rangeCells b)) := by
  have hcols : between (b.range.col + low) (b.range.col + (low + (n - 1))) =
      (List.range' low n).map (b.range.col + ·) := by
    rw [between_of_le (by omega), List.map_add_range']
    congr 1
    omega
  rw [keyRange, Block.rowEnd_of_whole hwhole, Block.columns?_upTo, hcols, List.map_map]
  rfl

theorem map_below_rangeCells (is : List Nat) :
    (is.map (rangeCells b)).map (·.map Cell.below) = is.map b.cellsAt := by
  rw [List.map_map]
  exact List.map_congr_left fun i _ ↦ map_below_stretch

theorem map_cellsAt_idxOf : (keys.map b.schema.idxOf).map b.cellsAt = keyCells b keys := by
  rw [List.map_map]
  rfl

theorem range'_eq_iff (h : places.Perm (List.range' low n)) :
    List.range' low n = places ↔ places.Pairwise (· < ·) := by
  constructor
  · rintro rfl
    exact List.pairwise_lt_range' ..
  · intro hlt
    exact h.symm.eq_of_pairwise (fun _ _ _ _ hab hba ↦ absurd hab hba.asymm)
      (List.pairwise_lt_range' ..) hlt

theorem every_upTo {first : Corner} {col : Nat} {number : Extent} :
    (b.upTo first col number).Every (·.first = first) := by
  cases number <;> simp [Block.upTo]

theorem edits_groupBy {counter : Nat} {aggs : List Aggregation} {P : Placement}
    (h : groupBy counter keys aggs b = .ok P) :
    ∃ single rest, keyColumns b keys = .ok single ∧ P.edits =
      opening (sheetName .groupBy counter) groupRows (keys ++ aggs.map (·.output)) ++
        put (sheetName .groupBy counter) 1 0 (.call "UNIQUE" [single]) :: rest := by
  obtain ⟨single, hsingle, h⟩ := Outcome.bind_eq_ok.mp h
  obtain ⟨formulas, -, h⟩ := Outcome.bind_eq_ok.mp h
  exact ⟨single, formulas.flatten, hsingle, (place_keeps _ _ _ _ P h).1⟩

/-- When the keys of a sheet of groups are neighbours, its first formula takes them as one range.
Moved down by a row, the cells of the range are those of the key columns below the header, and they
come in the same order just when the keys are in the order of the schema. As they stand, the cells
are never the same. -/
theorem groupBy_keys {counter : Nat} {aggs : List Aggregation} {P : Placement}
    (h : groupBy counter keys aggs b = .ok P) (hkeys : 2 ≤ keys.length)
    (hlow : (keys.map b.schema.idxOf).Perm (List.range' low keys.length)) :
    ∃ single columns rest, P.edits =
        opening (sheetName .groupBy counter) groupRows (keys ++ aggs.map (·.output)) ++
          put (sheetName .groupBy counter) 1 0 (.call "UNIQUE" [single]) :: rest ∧
      keys.mapM b.column = .ok columns ∧
      single.Every (·.first.number = b.range.row + 1) ∧
      (∀ t ∈ columns, t.Every (·.first.number = b.range.row + 2)) ∧
      (b.part = none → ∃ cells, single.columns? = some cells ∧
        (Term.beside columns).columns? = some (keyCells b keys) ∧
        (cells.map (·.map Cell.below)).Perm (keyCells b keys) ∧
        (cells.map (·.map Cell.below) = keyCells b keys ↔
          (keys.map b.schema.idxOf).Pairwise (· < ·)) ∧
        cells ≠ keyCells b keys) := by
  obtain ⟨-, hin, -⟩ := succeeds_groupBy.mp ⟨P, h⟩
  obtain ⟨single, rest, hsingle, hedits⟩ := edits_groupBy h
  rw [keyColumns_of_neighbours hkeys hin hlow] at hsingle
  obtain rfl := Except.ok.inj hsingle
  refine ⟨_, _, rest, hedits, mapM_column hin, ?_, ?_, ?_⟩
  · exact fun r hr ↦ congrArg Corner.number (every_upTo r hr)
  · exact List.forall_mem_map.mpr fun k _ r hr ↦ congrArg Corner.number (every_upTo r hr)
  · intro hwhole
    refine ⟨_, columns?_keyRange hwhole (by omega), columns?_beside_column hwhole, ?_, ?_, ?_⟩
    · rw [map_below_rangeCells, ← map_cellsAt_idxOf]
      exact hlow.symm.map _
    · rw [map_below_rangeCells, ← map_cellsAt_idxOf, Block.cellsAt_injective.list_map.eq_iff,
        range'_eq_iff hlow]
    · obtain ⟨k, ks, rfl⟩ := List.exists_cons_of_length_pos (show 0 < keys.length by omega)
      intro hsame
      rw [List.length_cons, List.range'_succ, List.map_cons, keyCells, List.map_cons] at hsame
      exact stretch_ne_below (List.cons.inj hsame).1

def ledger : Block :=
  { sheet := "Source_0", range := { row := 0, col := 0, rowEnd := 2, colEnd := 2 },
    schema := ["a", "b", "c"] }

theorem groupBy_keys_ledger : ∃ P single columns rest cells,
    groupBy 1 ["b", "a"] [⟨"s", "sum", "c"⟩] ledger = .ok P ∧
    P.edits = opening "GroupBy_1" groupRows ["b", "a", "s"] ++
      put "GroupBy_1" 1 0 (.call "UNIQUE" [single]) :: rest ∧
    ["b", "a"].mapM ledger.column = .ok columns ∧ single.columns? = some cells ∧
    (cells.map (·.map Cell.below)).Perm (keyCells ledger ["b", "a"]) ∧
    cells.map (·.map Cell.below) ≠ keyCells ledger ["b", "a"] := by
  have hsome : Outcome.Succeeds (groupBy 1 ["b", "a"] [⟨"s", "sum", "c"⟩] ledger) :=
    succeeds_groupBy.mpr ⟨by simp, by simp [ledger], by simp [ledger, conditional]⟩
  have hlow : (["b", "a"].map ledger.schema.idxOf).Perm (List.range' 0 2) := by decide
  obtain ⟨P, hP⟩ := hsome
  obtain ⟨single, columns, rest, hedits, hcolumns, -, -, hwhole⟩ := groupBy_keys hP (by decide) hlow
  obtain ⟨cells, hcells, -, hperm, horder, -⟩ := hwhole rfl
  exact ⟨P, single, columns, rest, cells, hP, hedits, hcolumns, hcells, hperm,
    fun h ↦ absurd (horder.mp h) (by decide)⟩

/-- The first two columns as keys are taken from the header and the first row. -/
theorem groupBy_ledger : ∃ P single columns rest,
    groupBy 1 ["a", "b"] [⟨"s", "sum", "c"⟩] ledger = .ok P ∧
    P.edits = opening "GroupBy_1" groupRows ["a", "b", "s"] ++
      put "GroupBy_1" 1 0 (.call "UNIQUE" [single]) :: rest ∧
    ["a", "b"].mapM ledger.column = .ok columns ∧
    single.render = "Source_0!A1:B2" ∧
    (Term.beside columns).render = "\x7bSource_0!A2:A3, Source_0!B2:B3\x7d" ∧
    single.columns? ≠ (Term.beside columns).columns? := by
  have hsome : Outcome.Succeeds (groupBy 1 ["a", "b"] [⟨"s", "sum", "c"⟩] ledger) :=
    succeeds_groupBy.mpr ⟨by simp, by simp [ledger], by simp [ledger, conditional]⟩
  have hlow : (["a", "b"].map ledger.schema.idxOf).Perm (List.range' 0 2) := by decide
  obtain ⟨P, hP⟩ := hsome
  obtain ⟨single, rest, hsingle, hedits⟩ := edits_groupBy hP
  rw [keyColumns_of_neighbours (by decide) (by simp [ledger]) hlow] at hsingle
  obtain rfl := Except.ok.inj hsingle
  exact ⟨P, _, _, rest, hP, hedits, mapM_column (by simp [ledger]), by decide +kernel,
    by decide +kernel, by decide +kernel⟩

end Gridplan.Layout
