import Gridplan.Table.Basic
import Gridplan.Expr.Build

namespace Gridplan

/-- Truth values for rows. A series names its rows and may carry a condition; an array and a list
go by position. -/
inductive Mask where
  | series (index : List Int) (cells : Column) (name : Label) (condition : Option Expr)
  | array (cells : Column)
  | list (cells : List Datum)
deriving Inhabited

namespace Mask

def ofList (cells : List Datum) (name : Label) : Mask :=
  .series (Frame.numbered cells.length) (Column.ofList cells) name none

/-- A column, perhaps with something added, compared with a datum. What is added is not part of the
condition. -/
def compare (t : Table) (l : Label) (plus : Option Datum) (c : Datum.Comparison) (d : Datum) :
    Outcome Mask := do
  let cells ← t.frame.column l
  let shifted ← match plus with
    | some x => Quantity.arithmetic .add (.column cells) (.single x)
    | none => .ok (.column cells)
  match ← Quantity.compareBy c shifted (.single d) with
  | .column r => do
    let condition ← if t.plan.isSome then
        (Expr.combine c.symbol (.column l.display) (.raw d)).map some
      else .ok none
    return .series t.frame.index r l condition
  | .single _ => .error .kind

def cells : Mask → List Datum
  | .series _ c _ _ => c.toList
  | .array c => c.toList
  | .list ds => ds

def condition? : Mask → Option Expr
  | .series _ _ _ e => e
  | _ => none

def symbol : Column.Connective → String
  | .both => "and"
  | .either => "or"

def connectColumns (op : Column.Connective) (a b : Column) : Outcome Column :=
  if a.length = b.length then Column.connect op a b else .error .value

def connectRows (op : Column.Connective) (i j : List Int) (a b : Column) :
    Outcome (List Int × Column) :=
  if i = j then do return (i, ← Column.connect op a b)
  else
    let names := (i ++ j.filter fun n ↦ !i.contains n).mergeSort
    let align (k : List Int) (c : Column) : Column :=
      c.pickOr (names.map fun n ↦ k.findIdx? (· == n))
    do return (names, ← Column.connect op (align i a) (align j b))

/-- A connective of two masks. Beside a series the other mask is a series too; the condition of the
left one stays when the right one has none. -/
def connect (op : Column.Connective) : Mask → Mask → Outcome Mask
  | .series i a n p, .series j b m q => do
    let (names, cells) ← connectRows op i j a b
    let condition ← match p, q with
      | some e, some e' => (Expr.combine (symbol op) e e').map some
      | p, _ => .ok p
    return .series names cells (if n.same m then n else .null) condition
  | .series i a n p, .array b => do return .series i (← connectColumns op a b) n p
  | .series i a n p, .list ds => do return .series i (← connectColumns op a (.mixed ds)) n p
  | .array a, .series j b m q => do return .series j (← connectColumns op b a) m q
  | .list ds, .series j b m q => do return .series j (← connectColumns op b (.mixed ds)) m q
  | .array a, .array b => do return .array (← connectColumns op a b)
  | .array a, .list ds => do return .array (← connectColumns op a (Column.ofList ds))
  | .list ds, .array b => do return .array (← connectColumns op (Column.ofList ds) b)
  | .list _, .list _ => .error .kind

/-- The opposite mask. It keeps the condition as it is. -/
def complement : Mask → Outcome Mask
  | .series i c n p => do return .series i (← c.complement) n p
  | .array c => do return .array (← c.complement)
  | .list _ => .error .kind

def choose (f : Frame) : Mask → Outcome Frame
  | .series i (.bools bs) _ _ => do
    let mask ← if i = f.index then .ok bs
      else f.index.mapM fun n ↦
        match (i.findIdx? (· == n)).bind (bs[·]?) with
        | some b => .ok b
        | none => .error .unaligned
    return f.keep mask
  | .array (.bools bs) => if bs.length = f.height then .ok (f.keep bs) else .error .value
  | .series _ (.mixed xs) _ _ | .array (.mixed xs) =>
    if xs.all fun d ↦ d.isMissing || (Column.bool? d).isSome then .error .value else .error .label
  | _ => .error .label

def recorded : Mask → Expr
  | .series _ _ n p => p.getD (.raw (.text (n.display ++ " filter")))
  | _ => .raw (.text "boolean filter")

end Mask

namespace Table

/-- The rows that a mask chooses. A list counts as a list of columns. -/
def filter (m : Mask) (t : Table) : Recording Table :=
  match m with
  | .list ds => t.select ds
  | m => do t.follow (← m.choose t.frame) .filter [("predicate", m.recorded)]

/-- The rows that a mask chooses, recorded as a condition whatever the mask is. -/
def filterRows (m : Mask) (t : Table) : Recording Table := do
  let chosen ← t.filter m
  t.follow chosen.frame .filter [("predicate", m.recorded)]

end Table

end Gridplan
