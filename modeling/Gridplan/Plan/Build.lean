import Gridplan.Plan.Params
import Gridplan.Datum.Arithmetic

namespace Gridplan

structure NodeArgs where
  params : Params
  inputs : List Plan := []
  input : Option Plan := none
  left : Option Plan := none
  right : Option Plan := none
  data : Option Frame := none

namespace Kind

def isBinary : Kind → Bool
  | .join | .union => true
  | _ => false

def isUnary : Kind → Bool
  | .source | .join | .union | .bare => false
  | _ => true

def defaults : Kind → Params
  | .source => [("source_id", .raw (.text "")), ("schema", .raw .null)]
  | .select => [("columns", .raw (.list [])), ("predicate", .raw .null)]
  | .filter => [("predicate", .raw (.text ""))]
  | .join =>
    [("left_on", .raw (.text "")), ("right_on", .raw (.text "")),
      ("join_type", .raw (.text "inner")), ("suffixes", .raw (.tuple [.text "_x", .text "_y"]))]
  | .groupBy =>
    [("keys", .raw (.list [])), ("aggregations", .raw (.list [])), ("sort_keys", .raw .null),
      ("limit", .raw .null)]
  | .aggregate => [("aggregations", .raw (.list []))]
  | .sort => [("keys", .raw (.list [])), ("limit", .raw .null), ("predicate", .raw .null)]
  | .limit => [("count", .raw (.int 0)), ("end", .raw (.text "head"))]
  | .withColumn => [("column", .raw (.text "")), ("expression", .raw (.text ""))]
  | .union => []
  | .pivot =>
    [("index", .raw (.text "")), ("columns", .raw (.text "")), ("values", .raw (.text "")),
      ("aggfunc", .raw (.text "first"))]
  | .melt =>
    [("id_vars", .raw (.list [])), ("value_vars", .raw .null), ("var_name", .raw (.text "variable")),
      ("value_name", .raw (.text "value"))]
  | .window =>
    [("function", .raw (.text "")), ("input_column", .raw .null), ("output_column", .raw (.text "")),
      ("partition_by", .raw (.list [])), ("order_by", .raw (.list [])), ("frame", .raw .null)]
  | .bare => []

/-- When a second name of a parameter takes effect. -/
inductive Alias where
  /-- The second name is given and the parameter is empty. -/
  | ifEmpty
  /-- The second name is not empty and the parameter is. -/
  | ifFilled
  /-- The second name is given and the parameter is missing. -/
  | ifMissing
  /-- The second name is given and the parameter has its default value. -/
  | ifEqual (value : Datum)

def aliases : Kind → List (String × String × Alias)
  | .source => [("name", "source_id", .ifEmpty)]
  | .join =>
    [("left_key", "left_on", .ifEmpty), ("right_key", "right_on", .ifEmpty),
      ("how", "join_type", .ifEqual (.text "inner"))]
  | .limit => [("n", "count", .ifEqual (.int 0))]
  | .withColumn => [("column_name", "column", .ifEmpty)]
  | .pivot => [("pivot_column", "columns", .ifFilled), ("values_column", "values", .ifFilled)]
  | .window =>
    [("func", "function", .ifEmpty), ("input_col", "input_column", .ifMissing),
      ("output_col", "output_column", .ifEmpty)]
  | _ => []

def keywords (k : Kind) : List String :=
  k.defaults.map (·.1) ++ k.aliases.map (·.1)

end Kind

def Expr.isMissing : Expr → Bool
  | .raw .null => true
  | _ => false

namespace Params

def set (ps : Params) (name : String) (e : Expr) : Params :=
  ps.map fun p ↦ if p.1 = name then (name, e) else p

def applyAlias (given : Params) (ps : Params) : String × String × Kind.Alias → Params
  | (second, name, rule) =>
    let value := given.get second
    let current := ps.get name
    let takes : Bool := match rule with
      | .ifEmpty => !value.isMissing && !current.truthy
      | .ifFilled => value.truthy && !current.truthy
      | .ifMissing => !value.isMissing && current.isMissing
      | .ifEqual d =>
        !value.isMissing && (match current with
          | .raw c => c.same d
          | _ => true)
    if takes then ps.set name value else ps

def complete (kind : Kind) (given : Params) : Params :=
  kind.aliases.foldl (applyAlias given) (kind.defaults.map fun (n, d) ↦ (n, (given.lookup n).getD d))

def items (ps : Params) (name : String) : Outcome (List Datum) :=
  match ps.get name with
  | .raw d => d.items
  | _ => .error .kind

end Params

def Plan.statedSchema (p : Plan) : Option Datum :=
  if p.kind = .source then
    match p.op.params.get "schema" with
    | .raw .null => none
    | .raw d => some d
    | _ => none
  else none

namespace Plan

def checkNames (subject : String) (input : Option Plan) (names : Outcome (List Datum)) :
    Outcome Unit :=
  match input.bind statedSchema with
  | none => .ok ()
  | some schema => do
    let missing ← (← names).filterM fun n ↦ do return !(← schema.contains n)
    if missing.isEmpty then .ok ()
    else .error (.schema (.missing subject missing (← schema.items)))

def checkExpr (subject : String) (input : Option Plan) (e : Expr) : Outcome Unit :=
  if e.columns.isEmpty then .ok () else checkNames subject input (.ok (e.columns.map .text))

def checkInputs (kind : Kind) (inputs : List Plan) : Outcome Unit :=
  let count := if kind.isBinary then 2 else 1
  if inputs.length = count then .ok ()
  else .error (.plan (.inputCount kind.title kind.isBinary))

/-- Refuses sort keys that are not pairs of a column and a direction; gives the columns. -/
def checkDirections (window : Bool) (keys : Outcome (List Datum)) : Outcome (List Datum) := do
  (← keys).mapM fun key ↦ do
    let (column, direction) ← key.pair
    if direction.same (.text "asc") || direction.same (.text "desc") then return column
    else .error (.plan (.direction window direction))

def checkCount (refusal : PlanRefusal) (count : Expr) : Outcome Unit :=
  match count with
  | .raw d => do
    if ← Datum.compareBy .lt d (.int 0) then .error (.plan refusal) else .ok ()
  | _ => .ok ()

def checkFilled (refusal : PlanRefusal) (e : Expr) : Outcome Unit :=
  if e.truthy then .ok () else .error (.plan refusal)

/-- Refuses a missing condition or expression; zero and false count as given. -/
def checkGiven (refusal : PlanRefusal) (e : Expr) : Outcome Unit :=
  match e with
  | .raw d => if d.truthy || d.same (.int 0) then .ok () else .error (.plan refusal)
  | _ => .ok ()

/-- A text in place of a list of names is a list of one name, and of none when it is empty. -/
def asList : Expr → Expr
  | .raw (.text "") => .raw (.list [])
  | .raw (.text s) => .raw (.list [.text s])
  | e => e

def checkScalar : Expr → Outcome Unit
  | .raw (.list _) | .raw (.record _) => .error .kind
  | _ => .ok ()

def check (kind : Kind) (ps : Params) (inputs : List Plan) : Outcome Params := do
  match kind with
  | .bare => return ps
  | .source =>
    if inputs.isEmpty then return ps else .error (.plan .leafWithInputs)
  | .select =>
    checkInputs kind inputs
    checkFilled .noColumns (ps.get "columns")
    checkNames "Select" inputs.head? (ps.items "columns")
    return ps
  | .filter =>
    checkInputs kind inputs
    checkGiven .noPredicate (ps.get "predicate")
    checkExpr "Filter predicate" inputs.head? (ps.get "predicate")
    return ps
  | .join =>
    checkInputs kind inputs
    let ps := ps.set "left_on" (asList (ps.get "left_on"))
    let ps := ps.set "right_on" (asList (ps.get "right_on"))
    checkFilled .noJoinKeys (ps.get "left_on")
    checkFilled .noJoinKeys (ps.get "right_on")
    checkScalar (ps.get "join_type")
    if ((ps.text? "join_type").bind JoinKind.ofName?).isNone then
      .error (.plan (.joinKind ((ps.data? "join_type").getD .null)))
    checkNames "Join left_on" inputs[0]? (ps.items "left_on")
    checkNames "Join right_on" inputs[1]? (ps.items "right_on")
    return ps
  | .groupBy =>
    checkInputs kind inputs
    checkFilled (.noAggregation kind.title) (ps.get "aggregations")
    if (ps.get "sort_keys").truthy then
      let _ ← checkDirections false (ps.items "sort_keys")
    return ps
  | .aggregate =>
    checkInputs kind inputs
    checkFilled (.noAggregation kind.title) (ps.get "aggregations")
    return ps
  | .sort =>
    checkInputs kind inputs
    checkFilled .noSortKey (ps.get "keys")
    let columns ← checkDirections false (ps.items "keys")
    if !(ps.get "limit").isMissing then checkCount .negativeSortLimit (ps.get "limit")
    checkNames "Sort" inputs.head? (.ok columns)
    return ps
  | .limit =>
    checkInputs kind inputs
    checkCount .negativeCount (ps.get "count")
    if ((ps.text? "end").bind Side.ofName?).isNone then
      .error (.plan (.limitEnd ((ps.data? "end").getD .null)))
    return ps
  | .withColumn =>
    checkInputs kind inputs
    checkFilled .noColumnName (ps.get "column")
    checkGiven .noExpression (ps.get "expression")
    checkExpr "WithColumn expression" inputs.head? (ps.get "expression")
    return ps
  | .union =>
    checkInputs kind inputs
    match inputs.map statedSchema with
    | [some left, some right] =>
      if left.same right then return ps
      else .error (.schema (.unequal (← left.items) (← right.items)))
    | _ => return ps
  | .pivot =>
    checkInputs kind inputs
    let ps := ps.set "index" (asList (ps.get "index"))
    checkFilled .noIndex (ps.get "index")
    checkFilled .noPivotColumns (ps.get "columns")
    checkFilled .noPivotValues (ps.get "values")
    return ps
  | .melt =>
    checkInputs kind inputs
    checkFilled .noIdVars (ps.get "id_vars")
    return ps
  | .window =>
    checkInputs kind inputs
    checkFilled .noFunction (ps.get "function")
    checkFilled .noOutputColumn (ps.get "output_column")
    let _ ← checkDirections true (ps.items "order_by")
    return ps

def resolveInputs (kind : Kind) (a : NodeArgs) : List Plan :=
  if !a.inputs.isEmpty then a.inputs
  else if kind.isBinary then a.left.toList ++ a.right.toList
  else if kind.isUnary then a.input.toList
  else []

def accepts (kind : Kind) (a : NodeArgs) : Bool :=
  a.params.all (fun p ↦ kind.keywords.contains p.1) && (a.input.isNone || kind.isUnary) &&
    ((a.left.isNone && a.right.isNone) || kind.isBinary) && (a.data.isNone || kind == .source)

def withData (data : Option Frame) : Operator → Operator
  | .source id schema _ => .source id schema data
  | op => op

def build (kind : Kind) (a : NodeArgs) : Outcome Plan := do
  if !accepts kind a then .error .kind
  let inputs := resolveInputs kind a
  let ps ← check kind (Params.complete kind a.params) inputs
  return fresh (withData a.data (Operator.ofParams kind ps)) inputs

def make (op : Operator) (inputs : List Plan) : Outcome Plan := do
  let _ ← check op.kind op.params inputs
  return fresh op inputs

end Plan

end Gridplan
