import Gridplan.Plan.Params
import Gridplan.Datum.Arithmetic

namespace Gridplan

def Datum.first (d : Datum) : Outcome Datum :=
  match d with
  | .record _ => .error .label
  | d => do
    match ← d.items with
    | x :: _ => return x
    | [] => .error .position

namespace Plan

def outputNames (aggs : Expr) : Outcome Datum :=
  match aggs with
  | .raw d => do return .list (← (← d.items).mapM Datum.first)
  | _ => .error .kind

def given (ps : Params) (name : String) : Outcome Datum :=
  match ps.get name with
  | .raw d => .ok d
  | _ => .error .kind

mutual

/-- The columns of a plan as far as its nodes tell without looking further, empty where nothing is
known. -/
def heading : Plan → Outcome Datum
  | .node _ op inputs =>
    let ps := op.params
    match op.kind with
    | .source => do
      let schema ← given ps "schema"
      return if schema.truthy then schema else .list []
    | .select => given ps "columns"
    | .groupBy => do (← given ps "keys").add (← outputNames (ps.get "aggregations"))
    | .aggregate => outputNames (ps.get "aggregations")
    | .withColumn => do
      match inputs with
      | [p] =>
        let names ← heading p
        let column ← given ps "column"
        if ← names.contains column then return names else names.add (.list [column])
      | _ => return .list []
    | _ => headingOfOnly inputs

def headingOfOnly : List Plan → Outcome Datum
  | [p] => heading p
  | _ => .ok (.list [])

end

end Plan

end Gridplan
