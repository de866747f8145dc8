import Gridplan.Frame.Rows

namespace Gridplan

inductive Summary where
  | sum | mean | count | min | max | first | last | std | var | median | nunique | prod | size
  | any | all | sem
deriving DecidableEq, Inhabited

namespace Summary

def ofName? : String → Option Summary
  | "sum" => some .sum
  | "mean" => some .mean
  | "count" => some .count
  | "min" => some .min
  | "max" => some .max
  | "first" => some .first
  | "last" => some .last
  | "std" => some .std
  | "var" => some .var
  | "median" => some .median
  | "nunique" => some .nunique
  | "prod" => some .prod
  | "size" => some .size
  | "any" => some .any
  | "all" => some .all
  | "sem" => some .sem
  | _ => none

def ofName (name : String) : Outcome Summary :=
  match ofName? name with
  | some s => .ok s
  | none => .error .member

end Summary

namespace Stats

structure Running where
  total : Float := 0
  lost : Float := 0

def Running.add (r : Running) (x : Float) : Running :=
  let y := x - r.lost
  let t := r.total + y
  let lost := t - r.total - y
  ⟨t, if lost.isNaN then 0 else lost⟩

def compensatedSum (xs : List Float) : Float := (xs.foldl Running.add {}).total

def sum (xs : List Float) : Float := xs.foldl (· + ·) 0

def product (xs : List Float) : Float := xs.foldl (· * ·) 1

def spreadOnline (xs : List Float) : Float :=
  (xs.foldl (fun (s : Float × Float × Float) x ↦
    let (n, mean, m2) := s
    let n := n + 1
    let next := mean + (x - mean) / n
    (n, next, m2 + (x - next) * (x - mean))) (0, 0, 0)).2.2

def spread (xs : List Float) : Float :=
  let mean := sum xs / Float.ofNat xs.length
  sum (xs.map fun x ↦ (mean - x) * (mean - x))

def variance (total : Float) (n : Nat) : Float :=
  if n < 2 then Column.nan else total / Float.ofNat (n - 1)

def median (xs : List Float) : Float :=
  let sorted := xs.mergeSort (· ≤ ·)
  let n := sorted.length
  match sorted[(n - 1) / 2]?, sorted[n / 2]? with
  | some a, some b => if n % 2 = 1 then b else (a + b) / 2
  | _, _ => Column.nan

end Stats

namespace Column

def present (c : Column) : List Datum := c.toList.filter (!·.isMissing)

def presentFloats (c : Column) : Outcome (List Float) :=
  match c.floats? with
  | some xs => .ok (xs.filter (!·.isNaN))
  | none => .error .kind

def extreme (greatest : Bool) (xs : List Datum) : Option Datum :=
  xs.head?.map fun x ↦
    xs.tail.foldl (fun best y ↦
      if best.cellOrder y == (if greatest then .lt else .gt) then y else best) x

/-- The least or greatest cell. Text is not compared with missing cells. -/
def extremeCell (greatest : Bool) (c : Column) : Outcome Datum :=
  let cells := c.present
  if !Frame.orderable cells then .error .kind
  else if cells.any (·.text?.isSome) && cells.length < c.length then .error .kind
  else .ok ((extreme greatest cells).getD (.float nan))

def distinct (xs : List Datum) : List Datum :=
  xs.foldl (fun seen x ↦ if x.isIn seen then seen else seen ++ [x]) []

def sumCells : List Datum → Outcome Datum
  | [] => .ok (.int 0)
  | x :: xs => xs.foldlM Datum.add x

def productCells (xs : List Datum) : Outcome Datum := xs.foldlM Datum.mul (.int 1)

def summarizeGroup (s : Summary) (c : Column) : Outcome Datum :=
  match s with
  | .count => .ok (.int c.present.length)
  | .size => .ok (.int c.length)
  | .nunique => .ok (.int (distinct c.present).length)
  | .first => .ok ((c.present.head?).getD (match c with
    | .mixed _ => .null
    | _ => .float nan))
  | .last => .ok ((c.present.getLast?).getD (match c with
    | .mixed _ => .null
    | _ => .float nan))
  | .min => c.extremeCell false
  | .max => c.extremeCell true
  | .any => .ok (.bool (c.present.any Datum.truthy))
  | .all => .ok (.bool (c.present.all Datum.truthy))
  | .sum =>
    match c with
    | .mixed _ => sumCells c.present
    | .floats xs => .ok (.float (Stats.compensatedSum (xs.filter (!·.isNaN))))
    | c => .ok (.int (wrap ((c.whole?.getD []).foldl (· + ·) 0)))
  | .prod =>
    match c with
    | .mixed _ => productCells c.present
    | .floats xs => .ok (.float (Stats.product (xs.filter (!·.isNaN))))
    | c => .ok (.int (wrap ((c.whole?.getD []).foldl (· * ·) 1)))
  | .mean => do
    let xs ← c.presentFloats
    return .float (Stats.compensatedSum xs / Float.ofNat xs.length)
  | .var => do
    let xs ← c.presentFloats
    return .float (Stats.variance (Stats.spreadOnline xs) xs.length)
  | .median => do return .float (Stats.median (← c.presentFloats))
  | .std | .sem =>
    match c.presentFloats with
    | .error _ => .error .value
    | .ok xs =>
      let deviation := (Stats.variance (Stats.spreadOnline xs) xs.length).sqrt
      .ok (.float (if s = .sem then deviation / (Float.ofNat xs.length).sqrt else deviation))

/-- The summary of a whole column. The first and last cells are no summaries of a column. -/
def summarize (s : Summary) (c : Column) : Outcome Datum :=
  match s with
  | .first | .last => .error .kind
  | .sum =>
    match c with
    | .mixed xs => sumCells (xs.map fun d ↦ if d.isMissing then .int 0 else d)
    | .floats xs => .ok (.float (Stats.sum (xs.filter (!·.isNaN))))
    | c => c.summarizeGroup .sum
  | .mean => do
    let xs ← c.presentFloats
    return .float (Stats.sum xs / Float.ofNat xs.length)
  | .var => do
    let xs ← c.presentFloats
    return .float (Stats.variance (Stats.spread xs) xs.length)
  | .std | .sem => do
    let xs ← c.presentFloats
    let deviation := (Stats.variance (Stats.spread xs) xs.length).sqrt
    return .float (if s = .sem then deviation / (Float.ofNat xs.length).sqrt else deviation)
  | s => c.summarizeGroup s

/-- A column of summaries of a column. Cells taken from text stay as they are. -/
def ofSummaries (s : Summary) (source : Column) (xs : List Datum) : Column :=
  match source, s with
  | .mixed _, .sum | .mixed _, .prod | .mixed _, .min | .mixed _, .max | .mixed _, .first
  | .mixed _, .last => .mixed xs
  | _, _ => ofList xs

def summarizeRows (s : Summary) (c : Column) (groups : List (List Nat)) : Outcome Column := do
  return ofSummaries s c (← groups.mapM fun rows ↦ (c.pick rows).summarizeGroup s)

end Column

end Gridplan
