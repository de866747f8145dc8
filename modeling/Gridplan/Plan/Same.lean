import Gridplan.Plan.Params
import Gridplan.Datum.Number

namespace Gridplan

def Expr.agrees : Expr → Expr → Bool
  | .raw a, .raw b => a.same b
  | _, _ => true

def Params.agree (ps qs : Params) : Bool := ps.all fun p ↦ p.2.agrees (qs.get p.1)

def Operator.data? : Operator → Option Frame
  | .source _ _ data => data
  | _ => none

def Operator.agrees (a b : Operator) : Outcome Bool :=
  if a.params.agree b.params then
    match a.data?, b.data? with
    | none, none => .ok true
    | some f, some g => if f = g then .ok true else .error .value
    | _, _ => .error .value
  else .ok false

namespace Plan

mutual

/-- Equality as the optimiser tests it: nodes of one kind with equal inputs and parameters, where an
expression counts as equal to anything in its place. -/
def same : Plan → Plan → Outcome Bool
  | .node _ op inputs, q =>
    if op.kind = q.kind then do
      if ← sameList inputs q.inputs then op.agrees q.op else return false
    else .ok false

def sameList : List Plan → List Plan → Outcome Bool
  | [], [] => .ok true
  | p :: ps, q :: qs => do
    if ← same p q then sameList ps qs else return false
  | _, _ => .ok false

end

end Plan

end Gridplan
