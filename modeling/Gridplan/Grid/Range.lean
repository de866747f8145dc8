import Gridplan.Fault

namespace Gridplan

/-- A rectangle of cells, counted from zero with both corners included. -/
structure Range where
  row : Nat
  col : Nat
  rowEnd : Nat
  colEnd : Nat
  row_le : row ≤ rowEnd := by omega
  col_le : col ≤ colEnd := by omega
deriving DecidableEq

namespace Range

instance : Inhabited Range := ⟨{ row := 0, col := 0, rowEnd := 0, colEnd := 0 }⟩

def contains (r : Range) (row col : Nat) : Bool :=
  r.row ≤ row && row ≤ r.rowEnd && r.col ≤ col && col ≤ r.colEnd

def ofCorners (row col rowEnd colEnd : Int) : Outcome Range :=
  if _ : row < 0 ∨ col < 0 then .error (.grid .negative)
  else if _ : rowEnd < row ∨ colEnd < col then .error (.grid .reversed)
  else
    .ok { row := row.toNat, col := col.toNat, rowEnd := rowEnd.toNat, colEnd := colEnd.toNat }

def new (row col : Int) (rowEnd colEnd : Option Int) : Outcome Range :=
  ofCorners row col (rowEnd.getD row) (colEnd.getD col)

def fromOrigin (rowEnd colEnd : Int) : Outcome Range := ofCorners 0 0 rowEnd colEnd

def intersect (a b : Range) : Option Range :=
  if h : max a.row b.row ≤ min a.rowEnd b.rowEnd ∧ max a.col b.col ≤ min a.colEnd b.colEnd then
    some
      { row := max a.row b.row
        col := max a.col b.col
        rowEnd := min a.rowEnd b.rowEnd
        colEnd := min a.colEnd b.colEnd
        row_le := h.1
        col_le := h.2 }
  else none

def union (a b : Range) : Range where
  row := min a.row b.row
  col := min a.col b.col
  rowEnd := max a.rowEnd b.rowEnd
  colEnd := max a.colEnd b.colEnd
  row_le := by have := a.row_le; omega
  col_le := by have := a.col_le; omega

def offset (r : Range) (rows cols : Int) : Outcome Range :=
  if (r.row : Int) + rows < 0 ∨ (r.col : Int) + cols < 0 then .error (.grid .offset)
  else ofCorners (r.row + rows) (r.col + cols) (r.rowEnd + rows) (r.colEnd + cols)

def expand (r : Range) (rows cols : Int) : Outcome Range :=
  if (r.rowEnd : Int) + rows < r.row ∨ (r.colEnd : Int) + cols < r.col then .error (.grid .expansion)
  else ofCorners r.row r.col (r.rowEnd + rows) (r.colEnd + cols)

def height (r : Range) : Nat := r.rowEnd - r.row + 1

end Range

end Gridplan
