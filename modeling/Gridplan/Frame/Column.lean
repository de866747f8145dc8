import Gridplan.Frame.Basic
import Gridplan.Fault

namespace Gridplan

def Datum.isMissing : Datum → Bool
  | .null => true
  | .float x => x.isNaN
  | _ => false

namespace Column

def nan : Float := 0.0 / 0.0

def fits (n : Int) : Bool := -Int.pow 2 63 ≤ n && n < Int.pow 2 63

def wrap (n : Int) : Int := Int.bmod n (Nat.pow 2 64)

def int? : Datum → Option Int
  | .int n => if fits n then some n else none
  | _ => none

def bool? : Datum → Option Bool
  | .bool b => some b
  | _ => none

def float? : Datum → Option Float
  | .int n => if fits n then some (Float.ofInt n) else none
  | .float x => some x
  | .null => some nan
  | _ => none

/-- The column of a list of cells: integers when all are, truth values when all are, floating-point
numbers when all are numbers or missing, and otherwise the cells as they are. A list without numbers
is floating-point only when it is empty. -/
def ofList (xs : List Datum) : Column :=
  if xs.isEmpty then .floats []
  else
    match xs.mapM int?, xs.mapM bool?, xs.mapM float? with
    | some ns, _, _ => .ints ns
    | none, some bs, _ => .bools bs
    | none, none, some fs => if xs.all (· == .null) then .mixed xs else .floats fs
    | none, none, none => .mixed xs

def fill (n : Nat) (d : Datum) : Column :=
  match d with
  | .int k => if fits k then .ints (List.replicate n k) else .mixed (List.replicate n d)
  | .float x => .floats (List.replicate n x)
  | .bool b => .bools (List.replicate n b)
  | d => .mixed (List.replicate n d)

def pick (rows : List Nat) (c : Column) : Column :=
  c.rearrange fun xs ↦ rows.filterMap (xs[·]?)

def floats? : Column → Option (List Float)
  | .ints xs => some (xs.map Float.ofInt)
  | .floats xs => some xs
  | .bools xs => some (xs.map fun b ↦ if b then 1 else 0)
  | .mixed xs => xs.mapM fun d ↦
      match d with
      | .bool b => some (if b then 1 else 0)
      | d => float? d

def loosen : Column → Column
  | .ints xs => .floats (xs.map Float.ofInt)
  | .floats xs => .floats xs
  | .bools xs => .mixed (xs.map .bool)
  | .mixed xs => .mixed xs

def pickOr (rows : List (Option Nat)) (c : Column) : Column :=
  match rows.mapM id with
  | some rows => c.pick rows
  | none =>
    match c.loosen with
    | .floats xs => .floats (rows.map fun r ↦ (r.bind (xs[·]?)).getD nan)
    | c => .mixed (rows.map fun r ↦ (r.bind (c.toList[·]?)).getD .null)

def isBlank : Column → Bool
  | .floats xs => xs.all Float.isNaN
  | .mixed xs => xs.all Datum.isMissing
  | _ => false

inductive Kind where
  | ints | floats | bools | mixed
deriving DecidableEq

def kind : Column → Kind
  | .ints _ => .ints
  | .floats _ => .floats
  | .bools _ => .bools
  | .mixed _ => .mixed

/-- The least type that holds the cells of both; truth values are not numbers. -/
def Kind.join : Kind → Kind → Kind
  | .ints, .ints => .ints
  | .bools, .bools => .bools
  | .floats, .floats | .ints, .floats | .floats, .ints => .floats
  | _, _ => .mixed

def convert : Kind → Column → Column
  | .ints, c => c
  | .bools, c => c
  | .floats, c => (c.floats?.map .floats).getD c
  | .mixed, c => .mixed c.toList

def append : Column → Column → Column
  | .ints xs, .ints ys => .ints (xs ++ ys)
  | .floats xs, .floats ys => .floats (xs ++ ys)
  | .bools xs, .bools ys => .bools (xs ++ ys)
  | a, b => .mixed (a.toList ++ b.toList)

/-- Columns end to end. Blank text beside floating-point numbers counts as missing numbers. -/
def concat (cs : List Column) : Column :=
  let full := (cs.filter (!·.isBlank)).map kind
  let all := cs.map kind
  let join (ks : List Kind) : Kind :=
    match ks with
    | [] => .mixed
    | k :: ks => ks.foldl Kind.join k
  let target := if full ≠ [] && join full = .floats then .floats else join all
  match cs.map (convert target) with
  | [] => .mixed []
  | c :: cs => cs.foldl append c

end Column

namespace Frame

def ofRows (labels : List Label) (rows : List (List Datum)) : Outcome Frame := do
  let columns ← labels.zipIdx.mapM fun (l, i) ↦ do
    let cells ← rows.mapM fun r ↦
      match r[i]? with
      | some d => .ok d
      | none => .error .position
    return (l, Column.ofList cells)
  return ⟨columns, numbered rows.length⟩

def rows (f : Frame) : List (List Datum) :=
  let columns := f.columns.map (·.2.toList)
  (List.range f.height).map fun i ↦ columns.map fun cells ↦ (cells[i]?).getD .null

def column (f : Frame) (l : Label) : Outcome Column :=
  match f.columns.filter (·.1.same l) with
  | [] => .error .label
  | [c] => .ok c.2
  | _ => .error .value

def pick (rows : List Nat) (f : Frame) : Frame :=
  ⟨f.columns.map fun (l, c) ↦ (l, c.pick rows), rows.filterMap (f.index[·]?)⟩

def renumber (f : Frame) : Frame := { f with index := numbered f.height }

def select (labels : List Label) (f : Frame) : Outcome Frame := do
  let columns ← labels.mapM fun l ↦
    match f.columns.filter (·.1.same l) with
    | [] => .error .label
    | cs => .ok cs
  return ⟨columns.flatten, f.index⟩

def setColumn (l : Label) (c : Column) (f : Frame) : Frame :=
  if f.columns.any (·.1.same l) then
    { f with columns := f.columns.map fun p ↦ if p.1.same l then (p.1, c) else p }
  else { f with columns := f.columns ++ [(l, c)] }

end Frame

end Gridplan
