import Gridplan.Layout.Basic

namespace Gridplan.Layout

open Formula

/-- How many values a pivot has room for when their number is not known. -/
def pivotCols : Nat := 50

def pivotRows : Nat := 100

structure PivotRefs where
  index : Term
  columns : Term
  values : Term

def PivotRefs.matching (p : PivotRefs) (row col : Term) : Term :=
  .call "FILTER" [p.values, .binary "*" (.group (.binary "=" p.index row))
    (.group (.binary "=" p.columns col))]

def PivotRefs.criteria (p : PivotRefs) (row col : Term) : List Term := [p.index, row, p.columns, col]

def PivotRefs.cellTerm (p : PivotRefs) (func : String) (row col : Term) : Outcome Term :=
  match func with
  | "first" => .ok (.call "INDEX" [p.matching row col, .int 1])
  | "sum" => .ok (.call "SUMIFS" (p.values :: p.criteria row col))
  | "mean" => .ok (.call "AVERAGEIFS" (p.values :: p.criteria row col))
  | "count" => .ok (.call "COUNTIFS" (p.criteria row col))
  | "min" => .ok (.call "MIN" [p.matching row col])
  | "max" => .ok (.call "MAX" [p.matching row col])
  | f => .error (.unsupported (.pivotAggregation f))

def indexCell (number : Nat) : Term :=
  .ref { sheet := none, first := { col := 0, number, fixedCol := true } }

def headerCell (helper : String) (col : Nat) : Term :=
  .ref { sheet := some helper, quoted := true, first := { col, number := 1, fixedRow := true } }

def headerRow (helper : String) (cols : Nat) : Term :=
  .ref
    { sheet := some helper
      quoted := true
      first := { col := 0, number := 1 }
      last := some { col := cols, number := 1 } }

def pivot (counter : Nat) (index : List String) (columns values : String) (aggfunc : Option String)
    (colCount rowCount : Option Nat) (b : Block) : Outcome Placement := do
  let sheet := sheetName .pivot counter
  let helper := sheet ++ "_distinct"
  match index with
  | [] => .error .position
  | _ :: _ :: _ => .error (.unsupported (.pivotIndex index))
  | [name] =>
    let refs : PivotRefs := ⟨← b.column name, ← b.column columns, ← b.column values⟩
    let cols := colCount.getD pivotCols
    let rows := rowCount.getD pivotRows
    let func := aggfunc.getD "first"
    let _ ← refs.cellTerm func (indexCell 2) (headerCell helper 0)
    let cells ← (List.range rows).mapM fun i ↦
      (List.range cols).mapM fun j ↦ do
        let t ← refs.cellTerm func (indexCell (i + 2)) (headerCell helper j)
        return put sheet (i + 1) (j + 1) (.call "IFERROR" [t, blank])
    let distinct := Term.call "TRANSPOSE"
      [.call "SORT" [.call "UNIQUE" [refs.columns], .int 1, .text "TRUE"]]
    let range ← Range.fromOrigin (rows + 1) cols
    return ⟨[.create helper (.int 1) cols, put helper 0 0 distinct,
      .create sheet (.int (rows + 1)) (cols + 1), header sheet [name],
      put sheet 0 1 (headerRow helper cols),
      put sheet 1 0 (.call "UNIQUE" [refs.index])] ++ cells.flatten, { sheet, range, schema := [] }⟩

/-- The numbers from one to the number of rows of a column times `k`. -/
def counting (t : Term) (k : Nat) : Term :=
  .call "ROW" [.call "INDIRECT" [.binary "&" (.quoted "1:")
    (.binary "*" (.call "ROWS" [t]) (.int k))]]

def repeatEach (t : Term) (k : Nat) : Term :=
  spread (.call "INDEX" [t, .binary "+"
    (.call "INT" [.binary "/" (.group (.binary "-" (counting t k) (.int 1))) (.int k)]) (.int 1)])

/-- Terms in turn, once for every row of a column. -/
def cycle (t : Term) (ts : List Term) : Term :=
  let k := ts.length
  spread (.call "CHOOSE" (.binary "+"
    (.call "MOD" [.binary "-" (counting t k) (.int 1), .int k]) (.int 1) :: ts))

/-- The columns that a melt stacks: those asked for, else all that are not kept. -/
def melted (schema idVars : List String) (valueVars : Option (List String)) : List String :=
  match valueVars with
  | none | some [] => schema.filter fun n ↦ !idVars.contains n
  | some vs => vs

def melt (counter : Nat) (idVars : List String) (valueVars : Option (List String))
    (varName valueName : String) (b : Block) : Outcome Placement := do
  let sheet := sheetName .melt counter
  let vars := melted b.schema idVars valueVars
  if vars.isEmpty then .error (.unsupported .noMeltValues)
  let schema := idVars ++ [varName, valueName]
  let k := vars.length
  let rows := (b.depth.times k).succ
  match idVars with
  | [] => .error .position
  | first :: _ =>
    let firstRef ← b.column first
    let ids ← idVars.zipIdx.mapM fun (n, j) ↦ do
      return put sheet 1 j (repeatEach (← b.column n) k)
    let refs ← vars.mapM b.column
    place sheet schema rows (opening sheet rows schema ++ ids ++
      [put sheet 1 idVars.length (cycle firstRef (vars.map .quoted)),
        put sheet 1 (idVars.length + 1) (cycle firstRef refs)])

end Gridplan.Layout
