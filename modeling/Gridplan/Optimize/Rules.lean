import Gridplan.Optimize.Pass
import Gridplan.Plan.Heading

namespace Gridplan

namespace Optimize

def conjunction : Option Expr → Expr → Expr
  | none, q => q
  | some p, q => p.conj q

/-- A filter goes below a projection that keeps its columns, and merges with a filter. -/
def pushFilters : Rule
  | .filter predicate, [.node _ (.select columns _) inputs] =>
    if predicate.references.all columns.contains && inputs.length == 1 then do
      let below ← Plan.make (.filter predicate) inputs
      return some (← Plan.make (.select columns none) [below])
    else .ok none
  | .filter predicate, [.node _ (.filter inner) inputs] => do
    return some (← Plan.make (.filter (inner.conj predicate)) inputs)
  | _, _ => .ok none

def mergeProjections : Rule
  | .select columns _, [.node _ (.select _ _) inputs] => do
    return some (← Plan.make (.select columns none) inputs)
  | _, _ => .ok none

def bounded (count : Int) : Option Int → Int
  | none => count
  | some cap => min count cap

def sortParams? (op : Operator) : Option Params := if op.kind = .sort then some op.params else none

def sortWith (ps : Params) (cap predicate : Expr) (inputs : List Plan) : Outcome Plan :=
  Plan.make (Operator.ofParams .sort
    [("keys", ps.get "keys"), ("limit", cap), ("predicate", predicate)]) inputs

/-- The smaller of two numbers of rows, the first one when they are equal; a missing one is no bound. -/
def boundedData (count cap : Datum) : Datum :=
  match count.number?, cap.number? with
  | some m, some n => if n.compare? m == some .lt then cap else count
  | _, _ => count

def fuseLoose (op : Operator) : List Plan → Outcome (Option Plan)
  | [.node _ below inputs] =>
    match op.kind, sortParams? op, sortParams? below, below with
    | .limit, _, some ps, _ => do
      let count := (op.params.data? "count").getD .null
      let cap := boundedData count ((ps.data? "limit").getD .null)
      return some (← sortWith ps (.raw cap) (ps.get "predicate") inputs)
    | _, some ps, _, .filter inner => do
      return some (← sortWith ps (ps.get "limit") (conjunction (ps.expr? "predicate") inner) inputs)
    | _, _, _, _ => .ok none
  | _ => .ok none

/-- A sort with a number of rows of an unexpected kind, sorted again or sorting what is sorted. -/
def simplifyLoose (op : Operator) : List Plan → Outcome (Option Plan)
  | [.node _ below inputs] =>
    match sortParams? op, sortParams? below with
    | some ps, some _ => do return some (← sortWith ps (.raw .null) (.raw .null) inputs)
    | _, _ => .ok none
  | _ => .ok none

/-- A limit goes into a sort, and a filter into the sort or projection above it. -/
def fuse : Rule
  | .limit count _, [.node _ (.sort keys cap predicate) inputs] => do
    return some (← Plan.make (.sort keys (some (bounded count cap)) predicate) inputs)
  | .sort keys cap predicate, [.node _ (.filter inner) inputs] => do
    return some (← Plan.make (.sort keys cap (some (conjunction predicate inner))) inputs)
  | .select columns predicate, [.node _ (.filter inner) inputs] => do
    return some (← Plan.make (.select columns (some (conjunction predicate inner))) inputs)
  | .loose kind ps, inputs => fuseLoose (.loose kind ps) inputs
  | .limit count side, [.node mark (.loose .sort ps) inputs] =>
    fuseLoose (.limit count side) [.node mark (.loose .sort ps) inputs]
  | _, _ => .ok none

/-- Drops a projection to all columns, a filter that is always true and a sort that is sorted
again. -/
def simplify : Rule
  | .select columns _, [p] => do
    let names ← p.heading
    if names.truthy && (Datum.ofTexts columns).same names then return some p else return none
  | .filter (.literal (.bool true)), [p] => .ok (some p)
  | .sort keys _ _, [.node _ (.sort _ _ _) inputs] => do
    return some (← Plan.make (.sort keys none none) inputs)
  | .loose kind ps, inputs => simplifyLoose (.loose kind ps) inputs
  | .sort keys cap predicate, [.node mark (.loose .sort ps) inputs] =>
    simplifyLoose (.sort keys cap predicate) [.node mark (.loose .sort ps) inputs]
  | _, _ => .ok none

def rules : List Rule := [pushFilters, mergeProjections, fuse, simplify]

def passes (p : Plan) : List Rule → Outcome (List Plan)
  | [] => .ok []
  | rule :: rest => do
    let q ← pass rule p
    return q :: (← passes q rest)

end Optimize

def Plan.optimize (p : Plan) : Outcome Plan := Optimize.rules.foldlM (fun q rule ↦ Optimize.pass rule q) p

end Gridplan
