import Gridplan.Plan.Params

namespace Gridplan

def Params.shown (ps : Params) (name : String) : String := (ps.get name).display

def Params.shownIf (ps : Params) (name label closing : String) (shows : Expr → Bool) : String :=
  if shows (ps.get name) then ", " ++ label ++ ps.shown name ++ closing else ""

def Expr.isGiven : Expr → Bool
  | .raw .null => false
  | _ => true

def Operator.explain (op : Operator) : String :=
  let ps := op.params
  op.kind.title ++ "(" ++ (match op.kind with
    | .source =>
      "source_id='" ++ ps.shown "source_id" ++ "'" ++ ps.shownIf "schema" "schema=" "" Expr.truthy
    | .select =>
      "columns=" ++ ps.shown "columns" ++ ps.shownIf "predicate" "predicate='" "'" Expr.isGiven
    | .filter => "predicate='" ++ ps.shown "predicate" ++ "'"
    | .join =>
      "left_on=" ++ ps.shown "left_on" ++ ", right_on=" ++ ps.shown "right_on" ++
        ", type='" ++ ps.shown "join_type" ++ "'"
    | .groupBy => "keys=" ++ ps.shown "keys" ++ ", aggregations=" ++ ps.shown "aggregations"
    | .aggregate => "aggregations=" ++ ps.shown "aggregations"
    | .sort =>
      "keys=" ++ ps.shown "keys" ++ ps.shownIf "limit" "limit=" "" Expr.isGiven ++
        ps.shownIf "predicate" "predicate='" "'" Expr.isGiven
    | .limit => "count=" ++ ps.shown "count" ++ ", end='" ++ ps.shown "end" ++ "'"
    | .withColumn =>
      "column='" ++ ps.shown "column" ++ "', expression='" ++ ps.shown "expression" ++ "'"
    | .pivot =>
      "index=" ++ ps.shown "index" ++ ", columns='" ++ ps.shown "columns" ++ "', values='" ++
        ps.shown "values" ++ "'"
    | .melt =>
      "id_vars=" ++ ps.shown "id_vars" ++ ps.shownIf "value_vars" "value_vars=" "" Expr.truthy
    | .window =>
      "function='" ++ ps.shown "function" ++ "', output='" ++ ps.shown "output_column" ++ "'" ++
        ps.shownIf "partition_by" "partition_by=" "" Expr.truthy ++
        ps.shownIf "order_by" "order_by=" "" Expr.truthy
    | .union | .bare => "") ++ ")"

namespace Plan

mutual

def explainLines : Plan → List String
  | .node _ op inputs => explainInputs inputs ++ [op.explain]

def explainInputs : List Plan → List String
  | [] => []
  | p :: ps => explainLines p ++ explainInputs ps

end

def explain (p : Plan) : String :=
  "\n".intercalate
    ("Logical Plan:" :: String.ofList (List.replicate 60 '=') :: explainLines p)

def brief (p : Plan) : String := "LogicalPlan(root=" ++ p.kind.title ++ ")"

end Plan

end Gridplan
