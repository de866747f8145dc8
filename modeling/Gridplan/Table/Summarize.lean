import Gridplan.Table.Basic
import Gridplan.Frame.Reshape

namespace Gridplan

inductive Request where
  | one (func : String)
  | several (funcs : List String)

inductive Inquiry where
  | every (func : String)
  | everyOf (funcs : List String)
  | chosen (requests : List (Label × Request))
  | named (outputs : List (String × Label × String))

namespace Request

def recorded : Request → String
  | .one func => func
  | .several _ => "agg"

def funcs : Request → List String
  | .one func => [func]
  | .several funcs => funcs

def isSeveral : Request → Bool
  | .one _ => false
  | .several _ => true

end Request

namespace Inquiry

def isNested : Inquiry → Bool
  | .everyOf _ => true
  | .chosen requests => requests.any (·.2.isSeveral)
  | _ => false

def nested (l : Label) (funcs : List String) : Outcome (List (Label × Label × String)) :=
  if Frame.repeats (funcs.map .text) then .error .repeated
  else .ok (funcs.map fun func ↦ (.tuple [l, .text func], l, func))

def outputs (keys others : List Label) (q : Inquiry) : Outcome (List (Label × Label × String)) :=
  match q with
  | .every "size" => .ok ((keys.take 1).map fun l ↦ (.int 0, l, "size"))
  | .every func => .ok (others.map fun l ↦ (l, l, func))
  | .everyOf funcs => do return (← others.mapM fun l ↦ nested l funcs).flatten
  | .chosen requests =>
    if requests.isEmpty then .error .value
    else if q.isNested then do
      return (← requests.mapM fun (l, r) ↦ nested l r.funcs).flatten
    else .ok (requests.flatMap fun (l, r) ↦ r.funcs.map fun func ↦ (l, l, func))
  | .named outs =>
    if outs.isEmpty then .error .kind else .ok (outs.map fun (out, l, func) ↦ (.text out, l, func))

/-- The aggregations that are recorded: when there are none, the first other column stands in. -/
def recorded (others : List Label) (q : Inquiry) : List Datum :=
  let triples := match q with
    | .every func => others.map fun l ↦ (l, func)
    | .everyOf _ => []
    | .chosen requests => requests.map fun (l, r) ↦ (l, r.recorded)
    | .named outs => outs.map fun (out, _, _) ↦ (.text out, "agg")
  let triples := if triples.isEmpty then (others.take 1).map fun l ↦ (l, "first") else triples
  triples.map fun (l, func) ↦ .tuple [l, .text func, l]

end Inquiry

namespace Frame

/-- The answer to an inquiry: the keys and the outputs of every group. Beside nested labels a key has
an empty second part; an inquiry for no summaries at all has no rows. -/
def inquire (keys : List Label) (sort : Bool) (q : Inquiry) (f : Frame) : Outcome Frame := do
  let _ ← f.groups keys sort
  let others := f.labels.filter fun l ↦ !l.isIn keys
  match q with
  | .everyOf [] => return ⟨[(.tuple [.text "index", .text ""], .mixed [])], []⟩
  | q =>
    let answer ← f.groupBy keys sort (← q.outputs keys others)
    let nest (l : Label) : Label := if q.isNested && l.isIn keys then .tuple [l, .text ""] else l
    return { answer with columns := answer.columns.map fun (l, c) ↦ (nest l, c) }

end Frame

namespace Table

/-- One row for each group. Without a plan the keys only name the rows. -/
def groupBy (keys : List Label) (sort : Bool) (q : Inquiry) (t : Table) : Recording Table := do
  let f ← t.frame.inquire keys sort q
  let f := if t.plan.isSome then f
    else { f with columns := f.columns.drop keys.length }
  let others := t.frame.labels.filter fun l ↦ !l.isIn keys
  t.follow f .groupBy
    [("keys", .raw (.list keys)), ("aggregations", .raw (.list (q.recorded others)))]

structure Pivoting where
  index : Datum
  columns : Datum
  values : Datum
  func : Datum

namespace Pivoting

def labels : Datum → List Label
  | .null => []
  | .list ls => ls
  | l => [l]

def frame (p : Pivoting) (f : Frame) : Outcome Frame := do
  let isList (d : Datum) : Bool := match d with
    | .list _ => true
    | _ => false
  let values := if p.values == .null then none else some (labels p.values)
  let funcs := if p.func == .null then [none] else (labels p.func).map Datum.text?
  f.pivotTable (labels p.index) (labels p.columns) values (isList p.values || p.values == .null)
    funcs (isList p.func)

end Pivoting

def pivot (p : Pivoting) (t : Table) : Recording Table := do
  let f ← p.frame t.frame
  let index := match p.index with
    | .text s => Datum.list [.text s]
    | d => d
  let func := match p.func with
    | .text s => Datum.text s
    | _ => .text "first"
  t.follow f .pivot [("index", .raw index), ("columns", .raw p.columns), ("values", .raw p.values),
    ("aggfunc", .raw func)]

end Table

end Gridplan
