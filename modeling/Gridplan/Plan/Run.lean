import Gridplan.Expr.Evaluate
import Gridplan.Frame.Join
import Gridplan.Frame.Reshape
import Gridplan.Frame.Window

namespace Gridplan

namespace Frame

def union (left right : Frame) : Outcome Frame :=
  if Datum.sameList left.labels right.labels then
    .ok ⟨(left.columns.zip right.columns).map fun ((l, a), (_, b)) ↦ (l, Column.concat [a, b]),
      numbered (left.height + right.height)⟩
  else .error (.run (.unequalSchemas left.labels right.labels))

end Frame

namespace Operator

def outputs (aggs : List Aggregation) : List (Label × Label × String) :=
  aggs.map fun a ↦ (.text a.output, .text a.column, a.func)

def sortKeys (keys : List SortKey) : List (Label × Direction) :=
  keys.map fun k ↦ (.text k.column, k.direction)

def run (op : Operator) (inputs : List Frame) : Outcome Frame :=
  match op, inputs with
  | .select columns _, [f] => do return (← f.select (columns.map .text)).renumber
  | .filter predicate, [f] => do return (← f.locate (← predicate.evaluate f)).renumber
  | .sort keys _ _, [f] => do return (← f.sortBy (sortKeys keys)).renumber
  | .limit count side, [f] =>
    .ok (match side with
      | .head => f.head count.toNat
      | .tail => f.tail count.toNat).renumber
  | .withColumn column (.raw d), [_] => let _ := column; .error (.run (.textExpression d))
  | .withColumn column expression, [f] => do
    return f.setColumn (.text column) (← f.spread (← expression.evaluate f))
  | .groupBy keys aggs _ _, [f] => f.groupBy (keys.map .text) false (outputs aggs)
  | .aggregate aggs, [f] => f.aggregate (outputs aggs)
  | .join leftOn rightOn kind suffixes, [l, r] =>
    Frame.join (leftOn.map .text) (rightOn.map .text) kind suffixes l r
  | .union, [l, r] => l.union r
  | .pivot index columns values func, [f] =>
    f.pivot (index.map .text) (.text columns) (.text values) func
  | .melt idVars valueVars varName valueName, [f] =>
    f.melt (idVars.map .text) (valueVars.map (·.map .text)) (.text varName) (.text valueName)
  | .window func input output partitionBy orderBy frame, [f] =>
    f.window ⟨func, input.map .text, .text output, partitionBy.map .text, sortKeys orderBy, frame⟩
  | _, _ => .error .kind

def inputCount? : Kind → Option Nat
  | .source => some 0
  | .join | .union => some 2
  | .bare => none
  | _ => some 1

end Operator

namespace Plan

mutual

def run : Plan → Outcome Frame
  | .node _ op inputs =>
    match op with
    | .source _ _ none => .error (.run .noData)
    | .source _ _ (some data) => .ok data
    | op =>
      if Operator.inputCount? op.kind = some inputs.length then do op.run (← runList inputs)
      else .error (.mismatch (.operation op.kind.title))

def runList : List Plan → Outcome (List Frame)
  | [] => .ok []
  | p :: ps => do
    let f ← run p
    let fs ← runList ps
    return f :: fs

end

end Plan

end Gridplan
