import Gridplan.Frame.Quantity
import Gridplan.Plan.Basic

namespace Gridplan

/-- The order of present cells: numbers by size, before texts. -/
def Datum.cellOrder (a b : Datum) : Ordering :=
  match a.number?, b.number?, a, b with
  | some m, some n, _, _ => (m.compare? n).getD .eq
  | some _, none, _, _ => .lt
  | none, some _, _, _ => .gt
  | none, none, .text s, .text t => compare s t
  | _, _, _, _ => .eq

namespace Frame

/-- The place of one cell beside another in a direction: missing cells are last in both. -/
def cellOrder (d : Direction) (a b : Datum) : Ordering :=
  match a.isMissing, b.isMissing with
  | true, true => .eq
  | true, false => .gt
  | false, true => .lt
  | false, false =>
    match d with
    | .asc => a.cellOrder b
    | .desc => b.cellOrder a

def keyOrder : List Direction → List Datum → List Datum → Ordering
  | d :: ds, a :: as, b :: bs => (cellOrder d a b).then (keyOrder ds as bs)
  | _, _, _ => .eq

def orderable (cells : List Datum) : Bool :=
  let present := cells.filter (!·.isMissing)
  present.length < 2 || present.all (·.number?.isSome) || present.all (·.text?.isSome)

def keyRows (n : Nat) (keys : List Column) : List (List Datum) :=
  let cells := keys.map Column.toList
  (List.range n).map fun i ↦ cells.map fun cs ↦ (cs[i]?).getD .null

def arrange (ds : List Direction) (keys : List (List Datum)) (rows : List Nat) : List Nat :=
  let decorated := rows.map fun i ↦ ((keys[i]?).getD [], i)
  (decorated.mergeSort fun a b ↦ keyOrder ds a.1 b.1 != .gt).map (·.2)

def sortedRows (keys : List (Label × Direction)) (f : Frame) : Outcome (List Nat) := do
  let columns ← keys.mapM fun (l, _) ↦ f.column l
  if columns.all fun c ↦ orderable c.toList then
    return arrange (keys.map (·.2)) (keyRows f.height columns) (List.range f.height)
  else .error .kind

def sortBy (keys : List (Label × Direction)) (f : Frame) : Outcome Frame := do
  return f.pick (← sortedRows keys f)

def head (n : Nat) (f : Frame) : Frame := f.pick ((List.range f.height).take n)

def tail (n : Nat) (f : Frame) : Frame := f.pick ((List.range f.height).drop (f.height - n))

def keep (mask : List Bool) (f : Frame) : Frame :=
  f.pick ((mask.zipIdx.filter (·.1)).map (·.2))

def named (names : List Datum) (f : Frame) : Outcome Frame := do
  let rows ← names.mapM fun d ↦
    match (f.index.zipIdx.filter fun (n, _) ↦ (Datum.int n).same d).map (·.2) with
    | [] => .error .label
    | rows => .ok rows
  return f.pick rows.flatten

def locateBy (c : Column) (f : Frame) : Outcome Frame :=
  match c with
  | .bools mask => .ok (f.keep mask)
  | .mixed xs =>
    match xs.mapM Column.bool? with
    | some mask => .ok (f.keep mask)
    | none =>
      if xs.all fun d ↦ d.isMissing || (Column.bool? d).isSome then .error .value else f.named xs
  | c => f.named c.toList

/-- The rows that a value points at. A single name stands for a row, which is no frame. -/
def locate (q : Quantity) (f : Frame) : Outcome Frame :=
  match q with
  | .column c => f.locateBy c
  | .single (.list xs) =>
    match xs.mapM Column.bool? with
    | some mask =>
      if mask.isEmpty then .ok (f.pick [])
      else if mask.length = f.height then .ok (f.keep mask) else .error .position
    | none => f.named xs
  | .single (.record _) => .error .kind
  | .single (.bool _) => .error .label
  | .single d => do
    let _ ← f.named [d]
    .error .member

def spread (f : Frame) : Quantity → Outcome Column
  | .column c => .ok c
  | .single (.list xs) =>
    if xs.length = f.height then .ok (Column.ofList xs) else .error .value
  | .single (.record _) => .ok (.floats (List.replicate f.height Column.nan))
  | .single d => .ok (Column.fill f.height d)

end Frame

end Gridplan
