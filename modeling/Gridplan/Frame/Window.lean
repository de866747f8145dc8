import Gridplan.Frame.Group
import Gridplan.Text.Integer

namespace Gridplan

namespace Column

/-- The sums of the cells up to every row; a missing cell has none and is passed over. -/
def runningSums (compensated : Bool) (xs : List Float) : List Float :=
  (xs.foldl (fun (acc : List Float × Stats.Running) x ↦
    if x.isNaN then (nan :: acc.1, acc.2)
    else
      let next := if compensated then acc.2.add x else ⟨acc.2.total + x, 0⟩
      (next.total :: acc.1, next)) ([], {})).1.reverse

def cumulative (grouped : Bool) (c : Column) : Outcome (List Datum) :=
  match c with
  | .floats xs => .ok ((runningSums grouped xs).map .float)
  | .mixed xs =>
    if grouped then .error .kind
    else do
      let sums ← xs.foldlM (fun (acc : List Datum × Option Datum) x ↦ do
        let x' := if x.isMissing then .float 0 else x
        let next ← match acc.2 with
          | some total => total.add x'
          | none => .ok x'
        return ((if x.isMissing then .null else next) :: acc.1, some next)) ([], none)
      return sums.1.reverse
  | c =>
    let xs := c.whole?.getD []
    .ok ((xs.foldl (fun (acc : List Datum × Int) x ↦
      let next := wrap (acc.2 + x)
      (.int next :: acc.1, next)) ([], 0)).1.reverse)

/-- The aggregates of growing ranges, as floating-point numbers; one number in the range is enough. -/
def expanding (s : Summary) (c : Column) : Outcome (List Datum) :=
  match s with
  | .count =>
    .ok ((c.toList.foldl (fun (acc : List Datum × Int) x ↦
      let next := if x.isMissing then acc.2 else acc.2 + 1
      (.int next :: acc.1, next)) ([], 0)).1.reverse)
  | s =>
    match c.floats? with
    | none => .error .notNumeric
    | some xs =>
      let numbers := xs.map fun x ↦ if x.isFinite then x else nan
      .ok ((List.range xs.length).map fun i ↦
        .float (summary s ((numbers.take (i + 1)).filter (!·.isNaN))))
where
  summary (s : Summary) (xs : List Float) : Float :=
    match xs with
    | [] => nan
    | x :: rest =>
      let constant := rest.all (· == x)
      match s with
      | .min => rest.foldl (fun a b ↦ if b < a then b else a) x
      | .max => rest.foldl (fun a b ↦ if a < b then b else a) x
      | .mean => if constant then x else Stats.compensatedSum xs / Float.ofNat xs.length
      | _ => if constant then x * Float.ofNat xs.length else Stats.compensatedSum xs

def ranks (c : Column) : Outcome (List Datum) :=
  let cells := c.toList
  if !Frame.orderable cells then .error .kind
  else
    .ok (cells.map fun x ↦
      if x.isMissing then .null
      else .int (1 + (cells.filter fun y ↦ !y.isMissing && y.cellOrder x == .lt).length))

def shift (n : Int) (c : Column) : List Datum :=
  let cells := c.toList
  (List.range cells.length).map fun (i : Nat) ↦
    let j : Int := i - n
    if j < 0 then .null else (cells[j.toNat]?).getD .null

end Column

namespace Frame

structure WindowSpec where
  func : String
  input : Option Label
  output : Label
  partitionBy : List Label
  orderBy : List (Label × Direction)
  frame : Datum

/-- The number of rows that a frame description shifts by: one when it names none. -/
def offsetOf (frame : Datum) : Outcome Int :=
  match frame with
  | .int n => .ok n
  | .bool b => .ok (if b then 1 else 0)
  | .text s => .ok ((Text.readInt s).getD 1)
  | .float x =>
    match Decimal.Binary.ofFloat x with
    | some b => .ok b.truncate
    | none => if x.isNaN then .ok 1 else .error .overflow
  | _ => .ok 1

def WindowSpec.running (w : WindowSpec) : Bool :=
  w.frame == .text "unbounded preceding to current row" ||
    (w.frame == .null && !w.orderBy.isEmpty)

def aggregateOf? : String → Option Summary
  | "sum" => some .sum
  | "min" => some .min
  | "max" => some .max
  | "mean" => some .mean
  | "count" => some .count
  | _ => none

def scatter (n : Nat) (parts : List (List Nat × List Datum)) : List Datum :=
  let placed := parts.flatMap fun (rows, cells) ↦ rows.zip cells
  (List.range n).map fun i ↦ (placed.lookup i).getD .null

def windowColumn (source : Column) (xs : List Datum) : Column :=
  match source with
  | .mixed _ => .mixed xs
  | _ => if xs.all (· == .null) then .floats (xs.map fun _ ↦ Column.nan) else Column.ofList xs

/-- Whole numbers only: a missing value has none. -/
def wholeColumn (xs : List Datum) : Outcome Column :=
  if xs.any Datum.isMissing then .error .value else .ok (Column.ofList xs)

/-- The partitions of the rows in order. Without partition columns all rows are one. -/
def partitions (w : WindowSpec) (order : List Nat) (f : Frame) : Outcome (List (List Nat)) := do
  if w.partitionBy.isEmpty then return [order]
  else
    let columns ← w.partitionBy.mapM f.column
    return (Group.ofRows (keyRows f.height columns) order).map (·.rows)

def overParts (parts : List (List Nat)) (source : Column) (g : Column → Outcome (List Datum))
    (f : Frame) : Outcome (List Datum) := do
  let values ← parts.mapM fun rows ↦ do return (rows, ← g (source.pick rows))
  return scatter f.height values

def windowValues (w : WindowSpec) (f : Frame) : Outcome Column := do
  let order ← f.sortedRows w.orderBy
  let grouped := !w.partitionBy.isEmpty
  let source ← match w.input with
    | none => pure none
    | some l =>
      let _ ← if grouped then f.partitions w order else pure []
      pure (some (← f.column l))
  match w.func, aggregateOf? w.func, source with
  | _, some s, some c =>
    let parts ← f.partitions w order
    if w.running then
      let xs ← f.overParts parts c (Column.expanding s)
      if 1 < w.partitionBy.length && f.height != 0 then .error .kind
      else return windowColumn (.floats []) xs
    else if grouped then
      let xs ← f.overParts parts c fun part ↦ do
        return List.replicate part.length (← part.summarizeGroup s)
      match s with
      | .count => wholeColumn xs
      | .mean => return windowColumn (.floats []) xs
      | _ => return windowColumn c xs
    else
      match c.summarize s with
      | .error .kind => .error .kind
      | _ => .error .value
  | _, some _, none => .error .member
  | "cumsum", _, some c => return windowColumn c (← f.overParts (← f.partitions w order) c (Column.cumulative grouped))
  | "cumsum", _, none => .error .member
  | "rank", _, some c => wholeColumn (← f.overParts (← f.partitions w order) c Column.ranks)
  | "rank", _, none => .error (if grouped then .member else .label)
  | "row_number", _, source =>
    if grouped && source.isNone then .error .member
    else
      let parts ← f.partitions w order
      return windowColumn (.floats [])
        (scatter f.height (parts.map fun rows ↦
          (rows, (List.range rows.length).map fun (i : Nat) ↦ .int (i + 1))))
  | "lag", _, source => shifted 1 order source
  | "lead", _, source => shifted (-1) order source
  | func, _, _ => .error (.run (.windowFunction func))
where
  shifted (sign : Int) (order : List Nat) (source : Option Column) : Outcome Column := do
    let n ← offsetOf w.frame
    match source with
    | none => .error .label
    | some c =>
      let parts ← f.partitions w order
      let xs ← f.overParts parts c fun part ↦ .ok (part.shift (sign * n))
      return windowColumn c xs

def sortIndex (f : Frame) : Frame :=
  f.pick ((f.index.zipIdx.mergeSort fun a b ↦ a.1 ≤ b.1).map (·.2))

def window (w : WindowSpec) (f : Frame) : Outcome Frame := do
  let values ← windowValues w f
  return (f.setColumn w.output values).sortIndex.renumber

end Frame

end Gridplan
