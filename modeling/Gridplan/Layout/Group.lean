import Gridplan.Layout.Basic

namespace Gridplan.Layout

open Formula

def conditional (func : String) : Outcome String :=
  match func with
  | "sum" => .ok "SUMIFS"
  | "mean" => .ok "AVERAGEIFS"
  | "count" => .ok "COUNTIFS"
  | "min" => .ok "MINIFS"
  | "max" => .ok "MAXIFS"
  | f => .error (.unsupported (.aggregation f))

def total (func : String) : Outcome String :=
  match func with
  | "sum" => .ok "SUM"
  | "mean" => .ok "AVERAGE"
  | "count" => .ok "COUNTA"
  | "min" => .ok "MIN"
  | "max" => .ok "MAX"
  | f => .error (.unsupported (.aggregation f))

def groupRows : Nat := 100

def consecutive : List Nat → Bool
  | i :: j :: rest => i + 1 == j && consecutive (j :: rest)
  | _ => true

/-- The rows from one column to another. Both row numbers are one less than those of a column. -/
def keyRange (b : Block) (low high : Nat) : Term :=
  b.upTo { col := b.range.col + low, number := b.range.row + 1 } (b.range.col + high) b.rowEnd

def keyColumns (b : Block) (keys : List String) : Outcome Term :=
  match keys with
  | [key] => b.column key
  | keys => do
    let places ← keys.mapM (position b.schema)
    if consecutive (places.mergeSort (· ≤ ·)) then
      match places.min?, places.max? with
      | some low, some high => return keyRange b low high
      | _, _ => .error .value
    else return .beside (places.map b.columnAt)

def keyCriteria (b : Block) (sheet : String) (keys : List String) (number : Nat) :
    Outcome (List Term) := do
  let pairs ← keys.zipIdx.mapM fun (k, j) ↦ do return [← b.column k, cell sheet j number]
  return pairs.flatten

def valueArgs (b : Block) (a : Aggregation) : Outcome (List Term) :=
  if a.func = "count" then .ok [] else do return [← b.column a.column]

def groupColumn (b : Block) (sheet : String) (keys : List String) (col : Nat) (a : Aggregation) :
    Outcome (List Step) := do
  let func ← conditional a.func
  let value ← valueArgs b a
  (List.range (groupRows - 1)).mapM fun i ↦ do
    let criteria ← keyCriteria b sheet keys (i + 2)
    return put sheet (i + 1) col (.call "IF"
      [.binary "=" (cell sheet 0 (i + 2)) blank, blank, .call func (value ++ criteria)])

def groupBy (counter : Nat) (keys : List String) (aggs : List Aggregation) (b : Block) :
    Outcome Placement := do
  let sheet := sheetName .groupBy counter
  let schema := keys ++ aggs.map (·.output)
  let unique := put sheet 1 0 (.call "UNIQUE" [← keyColumns b keys])
  let columns ← aggs.zipIdx.mapM fun (a, j) ↦ groupColumn b sheet keys (keys.length + j) a
  place sheet schema groupRows (opening sheet groupRows schema ++ unique :: columns.flatten)

def aggregate (counter : Nat) (aggs : List Aggregation) (b : Block) : Outcome Placement := do
  let sheet := sheetName .aggregate counter
  let schema := aggs.map (·.output)
  let totals ← aggs.zipIdx.mapM fun (a, j) ↦ do
    let func ← total a.func
    return put sheet 1 j (.call func [← b.column a.column])
  place sheet schema (2 : Nat) (opening sheet (2 : Nat) schema ++ totals)

end Gridplan.Layout
