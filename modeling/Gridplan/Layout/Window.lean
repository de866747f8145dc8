import Gridplan.Layout.Basic
import Gridplan.Decimal.Binary
import Gridplan.Text.Integer

namespace Gridplan.Layout

open Formula

structure WindowFrame where
  block : Block
  sheet : String
  partitionBy : List String
  orderBy : List SortKey

namespace WindowFrame

def own (w : WindowFrame) (i number : Nat) : Term := cell w.sheet (w.block.range.col + i) number

def partitionArgs (w : WindowFrame) (number : Nat) : Outcome (List Term) := do
  let pairs ← w.partitionBy.mapM fun n ↦ do
    let i ← position w.block.schema n
    return [w.block.columnAt i, w.own i number]
  return pairs.flatten

def orderArgs (w : WindowFrame) (strict : Bool) (number : Nat) : Outcome (List Term) := do
  let pairs ← w.orderBy.mapM fun k ↦ do
    let i ← position w.block.schema k.column
    let sign := (if k.direction = .asc then "<" else ">") ++ (if strict then "" else "=")
    return [w.block.columnAt i, .binary "&" (.quoted sign) (w.own i number)]
  return pairs.flatten

def tieArgs (w : WindowFrame) (number : Nat) : Outcome (List Term) := do
  let groups ← w.orderBy.mapM fun k ↦ do
    let i ← position w.block.schema k.column
    let column := w.block.columnAt i
    let here := w.own i number
    return [column, here, .call "ROW" [column],
      .binary "&" (.quoted "<=") (.call "ROW" [here])]
  return groups.flatten

def rank (w : WindowFrame) (numbered : Bool) (number : Nat) : Outcome Term := do
  let inPartition ← w.partitionArgs number
  let before := Term.call "COUNTIFS" (inPartition ++ (← w.orderArgs numbered number))
  if numbered then
    return .binary "+" before (.call "COUNTIFS" (inPartition ++ (← w.tieArgs number)))
  else return before

def running (w : WindowFrame) (func : String) (column : Term) (number : Nat) : Outcome Term := do
  let criteria := (← w.partitionArgs number) ++ (← w.orderArgs false number)
  return .call func (column :: (if criteria.isEmpty then [.text ""] else criteria))

end WindowFrame

/-- The only frame that running aggregates have. -/
def runningFrame : String := "unbounded preceding to current row"

def distance (frame : Datum) : Outcome Int :=
  if !frame.truthy then .ok 1
  else
    match frame with
    | .int n => .ok n
    | .bool _ => .ok 1
    | .float x =>
      match Decimal.Binary.ofFloat x with
      | some b => .ok b.truncate
      | none => if x.isNaN then .ok 1 else .error .overflow
    | .text s => .ok ((Text.readInt s).getD 1)
    | _ => .error .kind

def runningFunction? : String → Option String
  | "sum" => some "SUMIFS"
  | "mean" => some "AVERAGEIFS"
  | "count" => some "COUNTIFS"
  | "min" => some "MINIFS"
  | "max" => some "MAXIFS"
  | _ => none

def inputName (func : String) (runs : Bool) (input : Option String) : Outcome String :=
  match input with
  | none | some "" => .error (.unsupported (.windowInput func runs))
  | some n => .ok n

def shifted (w : WindowFrame) (func : String) (input : Option String) (frame : Datum) :
    Outcome (Nat → Outcome Term) := do
  if !w.partitionBy.isEmpty then .error (.unsupported (.windowPartition func))
  let name ← inputName func false input
  let offset ← distance frame
  let i ← position w.block.schema name
  let delta := if func = "lead" then offset else -offset
  return fun number ↦
    .ok (.call "IFERROR" [.call "OFFSET" [cell w.sheet (i + 1) number, .int delta, .int 0], blank])

def accumulated (w : WindowFrame) (func : String) (input : Option String) (frame : Datum) :
    Outcome (Nat → Outcome Term) := do
  match runningFunction? func with
  | none => .error (.unsupported (.windowFunction func))
  | some conditional =>
    if frame.truthy && frame != .text runningFrame then .error (.unsupported (.windowFrame frame))
    let column ← w.block.column (← inputName func true input)
    return w.running conditional column

def windowTerm (w : WindowFrame) (func : String) (input : Option String) (frame : Datum) :
    Outcome (Nat → Outcome Term) :=
  match func with
  | "rank" => .ok (w.rank false)
  | "row_number" => .ok (w.rank true)
  | "lag" | "lead" => shifted w func input frame
  | _ => accumulated w func input frame

def window (counter : Nat) (func : String) (input : Option String) (output : String)
    (partitionBy : List String) (orderBy : List SortKey) (frame : Datum) (b : Block) :
    Outcome Placement := do
  let sheet := sheetName .window counter
  let schema := b.schema ++ [output]
  let rows := b.depth.succ
  let copies ← b.schema.zipIdx.mapM fun (n, j) ↦ do
    return put sheet 1 j (spread (← b.column n))
  let term ← windowTerm ⟨b, sheet, partitionBy, orderBy⟩ func input frame
  let cells ← match b.depth with
    | .whole n => (List.range n).mapM fun i ↦ do
      return put sheet (i + 1) b.schema.length (← term (i + 2))
    | .part _ => .error .kind
  place sheet schema rows (opening sheet rows schema ++ copies ++ cells)

end Gridplan.Layout
