import Gridplan.Plan.Params
import Gridplan.Proofs.Grid.Address
import Gridplan.Proofs.Service.Batches
import Gridplan.Proofs.Workbook.Contents

namespace Gridplan

/-- Whether data is a matrix: its rows have the same number of cells, and not none. -/
def Datum.IsMatrix (d : Datum) : Prop :=
  ∃ rows width, d.sequence? = some rows ∧ 0 < width ∧
    ∀ row ∈ rows, ∃ xs, row.sequence? = some xs ∧ xs.length = width

/-- Whether an edit writes to cells that exist, values as a matrix. -/
def Edit.Placed {φ : Type} : Edit φ → Prop
  | .values _ row col cells => 0 ≤ row ∧ 0 ≤ col ∧ cells.IsMatrix
  | .formula _ row col _ _ => 0 ≤ row ∧ 0 ≤ col
  | _ => True

namespace Datum

variable {d : Datum} {xs : List Datum}

theorem items_of_sequence? (h : d.sequence? = some xs) : d.items = .ok xs := by
  cases d with
  | list | tuple => exact congrArg Except.ok (Option.some.inj h)
  | _ => cases h

theorem truthy_of_sequence? (h : d.sequence? = some xs) : d.truthy = !xs.isEmpty := by
  cases d with
  | list | tuple => simp [truthy, Option.some.inj h]
  | _ => cases h

theorem matrix_of_sequence? (h : d.sequence? = some xs) :
    d.matrix = xs.map fun row ↦ row.items.toOption.getD [] := by
  rw [matrix, items_of_sequence? h]
  rfl

theorem matrixSize_of_sequence? {row : Datum} {rows : List Datum}
    (h : d.sequence? = some (row :: rows)) (hrow : row.sequence? = some xs) :
    Service.matrixSize d = .ok (rows.length + 1, xs.length) := by
  cases d with
  | list | tuple =>
    obtain rfl := Option.some.inj h
    cases row with
    | list | tuple =>
      obtain rfl := Option.some.inj hrow
      rfl
    | _ => cases hrow
  | _ => cases h

theorem IsMatrix.rows (h : d.IsMatrix) : ∃ width, 0 < width ∧
    (∀ xs ∈ d.matrix, xs.length = width) ∧ d.truthy = !d.matrix.isEmpty ∧
      (d.matrix ≠ [] → Service.matrixSize d = .ok (d.matrix.length, width)) := by
  obtain ⟨rows, width, hd, hwidth, hrows⟩ := h
  have hmatrix := matrix_of_sequence? hd
  refine ⟨width, hwidth, ?_, ?_, ?_⟩
  · intro xs hxs
    rw [hmatrix] at hxs
    obtain ⟨row, hrow, rfl⟩ := List.mem_map.mp hxs
    obtain ⟨xs, hxs, hlen⟩ := hrows row hrow
    rw [items_of_sequence? hxs]
    exact hlen
  · rw [truthy_of_sequence? hd, hmatrix, List.isEmpty_map]
  · intro hne
    cases rows with
    | nil => exact absurd hmatrix hne
    | cons row rows =>
      obtain ⟨xs, hxs, rfl⟩ := hrows row (List.mem_cons_self ..)
      rw [matrixSize_of_sequence? hd hxs, hmatrix, List.length_map, List.length_cons]

end Datum

namespace Service

theorem columnName_succ (n : Nat) : columnName (n + 1) = Grid.letterList n := by
  induction n using Nat.strong_induction_on with
  | _ n ih =>
    rw [columnName, Grid.letterList]
    split
    · rename_i hn
      rw [Nat.div_eq_of_lt hn, Nat.mod_eq_of_lt hn, columnName]
      rfl
    · rw [← ih (n / 26 - 1) (by omega)]
      congr 2
      omega

theorem cellName_eq (row col : Nat) :
    cellName ((row : Int) + 1) ((col : Int) + 1) = Range.cellText row col := by
  have hcol : ((col : Int) + 1).toNat = col + 1 := by omega
  rw [cellName, hcol, columnName_succ]
  rfl

/-- What a datum becomes in a cell: it stays a value, or its text is taken for a formula. -/
def contentOf? (raw : Bool) (d : Datum) : Option (Content String) :=
  if raw then some (.value d) else d.text?.map .formula

/-- The cells that an update writes, row by row, if its values fill the range that it names. -/
def Update.cells? (raw : Bool) (u : Update) : Option (List ((Int × Int) × Content String)) :=
  match Range.ofText u.range with
  | .error _ => none
  | .ok r =>
    let rows := u.values.matrix
    if r.row + rows.length = r.rowEnd + 1 ∧ ∀ xs ∈ rows, r.col + xs.length = r.colEnd + 1 then
      (rows.zipIdx.flatMap fun (xs, i) ↦ xs.zipIdx.map fun (x, j) ↦
        (((r.row : Int) + i, (r.col : Int) + j), x)).mapM fun (cell, x) ↦
          (contentOf? raw x).map (cell, ·)
    else none

def cells? (calls : List Sent) : Option (List ((Int × Int) × Content String)) :=
  ((calls.flatMap fun s : Sent ↦ s.2.map (Update.cells? s.1)).mapM id).map List.flatten

theorem ofText_rangeName {rows cols : Nat} (hrows : 0 < rows) (hcols : 0 < cols) (row col : Nat) :
    Range.ofText (rangeName (row + 1) (col + 1) (row + rows) (col + cols)) =
      .ok ⟨row, col, row + (rows - 1), col + (cols - 1), by omega, by omega⟩ := by
  have hrow : (row : Int) + rows = ((row + (rows - 1) : Nat) : Int) + 1 := by omega
  have hcol : (col : Int) + cols = ((col + (cols - 1) : Nat) : Int) + 1 := by omega
  rw [rangeName, hrow, hcol, cellName_eq, cellName_eq, Range.ofText_corners]
  exact Range.ofCorners_eq_ok (by omega) (by omega)

theorem cells?_values {d : Datum} {width : Nat} (hne : d.matrix ≠ []) (hwidth : 0 < width)
    (hrows : ∀ xs ∈ d.matrix, xs.length = width) (sheet : String) (row col : Nat) :
    Update.cells? true ⟨rangeName (row + 1) (col + 1) (row + d.matrix.length) (col + width), d⟩ =
      some (Edit.values sheet row col d : Edit String).writes := by
  have hlen : 0 < d.matrix.length := List.length_pos_iff.mpr hne
  have hfill : row + d.matrix.length = row + (d.matrix.length - 1) + 1 ∧
      ∀ xs ∈ d.matrix, col + xs.length = col + (width - 1) + 1 := by
    refine ⟨by omega, fun xs hxs ↦ ?_⟩
    rw [hrows xs hxs]
    omega
  rw [Update.cells?, ofText_rangeName hlen hwidth]
  dsimp only
  rw [if_pos hfill]
  refine List.mapM_pure.trans ?_
  simp [Edit.writes, List.map_flatMap, Function.comp_def]

theorem cells?_formula (sheet : String) (row col : Nat) (body : String) (needs : Option String) :
    Update.cells? false ⟨cellName (row + 1) (col + 1), .list [.list [.text body]]⟩ =
      some (Edit.formula sheet row col body needs).writes := by
  rw [Update.cells?, cellName_eq, Range.ofText_cellText, Range.ofCorners_eq_ok le_rfl le_rfl]
  simp [Datum.matrix, Datum.items, Except.toOption, contentOf?, Datum.text?, Edit.writes]

def writesOf (e : Edit String) : List ((Int × Int) × Content String) := (e.map withEquals).writes

theorem values_update {e : Edit String} (hstage : e.stage = .values) (he : e.Placed) :
    Outcome.Succeeds (valueUpdate e) ∧
      (Writing.values.update? e).elim (some []) (Update.cells? true) = some (writesOf e) := by
  cases e with
  | values sheet row col d =>
    obtain ⟨hrow, hcol, hd⟩ := he
    obtain ⟨width, hwidth, hrows, htruthy, hsize⟩ := hd.rows
    lift row to Nat using hrow
    lift col to Nat using hcol
    by_cases hne : d.matrix = []
    · have hupdate : valueUpdate (.values sheet row col d) = .ok none := by
        rw [valueUpdate, htruthy, hne]
        rfl
      refine ⟨⟨none, hupdate⟩, ?_⟩
      simp [Writing.update?, Writing.values, hupdate, Except.toOption, writesOf, Edit.map,
        Edit.writes, hne]
    · have hupdate : valueUpdate (.values sheet row col d) =
          .ok (some ⟨rangeName (row + 1) (col + 1) (row + d.matrix.length) (col + width), d⟩) := by
        rw [valueUpdate, htruthy, hsize hne]
        simp [hne]
      refine ⟨⟨_, hupdate⟩, ?_⟩
      have hcells := cells?_values hne hwidth hrows sheet row col
      simpa [Writing.update?, Writing.values, hupdate, Except.toOption, writesOf, Edit.map]
        using hcells
  | _ => cases hstage

theorem formula_update {e : Edit String} (hstage : e.stage = .formulas) (he : e.Placed) :
    (Writing.formulas.update? e).elim (some []) (Update.cells? false) = some (writesOf e) := by
  cases e with
  | formula sheet row col body needs =>
    obtain ⟨hrow, hcol⟩ := he
    lift row to Nat using hrow
    lift col to Nat using hcol
    have hcells := cells?_formula sheet row col (withEquals body) needs
    simpa [Writing.update?, Writing.formulas, formulaUpdate, Except.toOption, writesOf, Edit.map]
      using hcells
  | _ => cases hstage

theorem cells?_append {as bs : List Sent} {xs ys : List ((Int × Int) × Content String)}
    (ha : cells? as = some xs) (hb : cells? bs = some ys) :
    cells? (as ++ bs) = some (xs ++ ys) := by
  obtain ⟨xss, hxss, rfl⟩ := Option.map_eq_some_iff.mp ha
  obtain ⟨yss, hyss, rfl⟩ := Option.map_eq_some_iff.mp hb
  simp [cells?, hxss, hyss]

theorem cells?_calls {w : Writing} {es : List (Edit String)}
    (h : ∀ e ∈ es, (w.update? e).elim (some []) (Update.cells? w.raw) = some (writesOf e))
    (sheet : String) :
    cells? (w.calls es sheet) = some ((es.filter (·.sheet == sheet)).flatMap writesOf) := by
  have hbundle : ∀ us, cells? (bundle w.raw us) =
      ((us.map (Update.cells? w.raw)).mapM id).map List.flatten := by
    intro us
    rw [bundle]
    split
    · simp_all [cells?]
    · simp [cells?]
  have hmine : ∀ e ∈ es.filter (·.sheet == sheet), (w.update? e).elim (some [])
      (Update.cells? w.raw) = some (writesOf e) := fun e he ↦ h e (List.mem_of_mem_filter he)
  rw [Writing.calls, hbundle]
  generalize es.filter (·.sheet == sheet) = fs at hmine ⊢
  induction fs with
  | nil => rfl
  | cons e fs ih =>
    obtain ⟨he, hfs⟩ := List.forall_mem_cons.mp hmine
    obtain ⟨css, hcss, hflat⟩ := Option.map_eq_some_iff.mp (ih hfs)
    rw [List.filterMap_cons, List.flatMap_cons, ← hflat]
    cases hu : w.update? e with
    | none =>
      have hnil : [] = writesOf e := by simpa [hu] using he
      simp [hcss, ← hnil]
    | some u =>
      have hcells : u.cells? w.raw = some (writesOf e) := by simpa [hu] using he
      simp [hcells, hcss]

end Service

end Gridplan
