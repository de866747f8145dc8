import Gridplan.Grid.Address
import Gridplan.Datum.Arithmetic

namespace Gridplan

/-- A rectangle on a grid, counted from zero with both corners included. -/
structure Rect where
  row : Number
  col : Number
  rowEnd : Number
  colEnd : Number

namespace Rect

def less (a b : Number) : Bool := a.compare? b == some .lt

def lesser (a b : Number) : Number := if less b a then b else a

def greater (a b : Number) : Number := if less a b then b else a

def ofRange (r : Range) : Rect := ⟨.int r.row, .int r.col, .int r.rowEnd, .int r.colEnd⟩

def new (row col : Number) (rowEnd colEnd : Option Number) : Outcome Rect :=
  let r : Rect := ⟨row, col, rowEnd.getD row, colEnd.getD col⟩
  if less row (.int 0) || less col (.int 0) then .error (.grid .negative)
  else if less r.rowEnd row || less r.colEnd col then .error (.grid .reversed)
  else .ok r

def offset (r : Rect) (rows cols : Number) : Outcome Rect := do
  let row ← Number.plus r.row rows
  let col ← Number.plus r.col cols
  if less row (.int 0) || less col (.int 0) then .error (.grid .offset)
  else new row col (some (← Number.plus r.rowEnd rows)) (some (← Number.plus r.colEnd cols))

def expand (r : Rect) (rows cols : Number) : Outcome Rect := do
  let rowEnd ← Number.plus r.rowEnd rows
  let colEnd ← Number.plus r.colEnd cols
  if less rowEnd r.row || less colEnd r.col then .error (.grid .expansion)
  else new r.row r.col (some rowEnd) (some colEnd)

def union (a b : Rect) : Rect :=
  ⟨lesser a.row b.row, lesser a.col b.col, greater a.rowEnd b.rowEnd, greater a.colEnd b.colEnd⟩

def intersect (a b : Rect) : Option Rect :=
  let r : Rect := ⟨greater a.row b.row, greater a.col b.col, lesser a.rowEnd b.rowEnd,
    lesser a.colEnd b.colEnd⟩
  if less r.rowEnd r.row || less r.colEnd r.col then none else some r

def same (a b : Rect) : Bool :=
  a.row.same b.row && a.col.same b.col && a.rowEnd.same b.rowEnd && a.colEnd.same b.colEnd

def cornerText (row col : Number) : Outcome String :=
  match col with
  | .int n => do return Grid.lettersOfInt n ++ (← Number.plus row (.int 1)).toDatum.display
  | .float _ => .error .kind

def toText (r : Rect) : Outcome String := do
  let first ← cornerText r.row r.col
  if r.row.same r.rowEnd && r.col.same r.colEnd then return first
  else return first ++ ":" ++ (← cornerText r.rowEnd r.colEnd)

end Rect

end Gridplan
