import Gridplan.Plan.Basic

namespace Gridplan

abbrev Params := List (String × Expr)

namespace Params

def get (ps : Params) (name : String) : Expr := (ps.lookup name).getD (.raw .null)

def data? (ps : Params) (name : String) : Option Datum :=
  match ps.get name with
  | .raw d => some d
  | _ => none

def text? (ps : Params) (name : String) : Option String := (ps.data? name).bind Datum.text?

def texts? (ps : Params) (name : String) : Option (List String) := (ps.data? name).bind Datum.texts?

def option? {α : Type} (read : Datum → Option α) (ps : Params) (name : String) : Option (Option α) :=
  match ps.data? name with
  | some .null => some none
  | some d => (read d).map some
  | none => none

def expr? (ps : Params) (name : String) : Option Expr :=
  match ps.get name with
  | .raw .null => none
  | e => some e

end Params

def Datum.sequence? : Datum → Option (List Datum)
  | .list xs => some xs
  | .tuple xs => some xs
  | _ => none

def Datum.int? : Datum → Option Int
  | .int n => some n
  | _ => none

def SortKey.ofDatum? (d : Datum) : Option SortKey :=
  match d.sequence? with
  | some [.text c, .text dir] => (Direction.ofName? dir).map fun dir ↦ ⟨c, dir⟩
  | _ => none

def SortKey.toTuple (k : SortKey) : Datum := .tuple [.text k.column, .text k.direction.name]

def SortKey.listOf? (d : Datum) : Option (List SortKey) :=
  match d with
  | .list xs => xs.mapM SortKey.ofDatum?
  | _ => none

def Aggregation.ofDatum? (d : Datum) : Option Aggregation :=
  match d with
  | .tuple [.text o, .text f, .text c] => some ⟨o, f, c⟩
  | _ => none

def Aggregation.toTuple (a : Aggregation) : Datum :=
  .tuple [.text a.output, .text a.func, .text a.column]

def Aggregation.listOf? (d : Datum) : Option (List Aggregation) :=
  match d with
  | .list xs => xs.mapM Aggregation.ofDatum?
  | _ => none

namespace Operator

def params : Operator → Params
  | .source id schema _ =>
    [("source_id", .raw (.text id)),
      ("schema", .raw (Datum.ofOption (schema.map Datum.ofTexts)))]
  | .select columns predicate =>
    [("columns", .raw (Datum.ofTexts columns)), ("predicate", predicate.getD (.raw .null))]
  | .filter predicate => [("predicate", predicate)]
  | .join leftOn rightOn kind suffixes =>
    [("left_on", .raw (Datum.ofTexts leftOn)), ("right_on", .raw (Datum.ofTexts rightOn)),
      ("join_type", .raw (.text kind.name)),
      ("suffixes", .raw (.tuple [Datum.ofText? suffixes.1, Datum.ofText? suffixes.2]))]
  | .groupBy keys aggs sortKeys cap =>
    [("keys", .raw (Datum.ofTexts keys)),
      ("aggregations", .raw (.list (aggs.map Aggregation.toTuple))),
      ("sort_keys", .raw (if sortKeys.isEmpty then .null else .list (sortKeys.map SortKey.toTuple))),
      ("limit", .raw (Datum.ofOption (cap.map .int)))]
  | .aggregate aggs => [("aggregations", .raw (.list (aggs.map Aggregation.toTuple)))]
  | .sort keys cap predicate =>
    [("keys", .raw (.list (keys.map SortKey.toTuple))),
      ("limit", .raw (Datum.ofOption (cap.map .int))),
      ("predicate", predicate.getD (.raw .null))]
  | .limit count side => [("count", .raw (.int count)), ("end", .raw (.text side.name))]
  | .withColumn column expression => [("column", .raw (.text column)), ("expression", expression)]
  | .union => []
  | .pivot index columns values aggfunc =>
    [("index", .raw (Datum.ofTexts index)), ("columns", .raw (.text columns)),
      ("values", .raw (.text values)), ("aggfunc", .raw (Datum.ofText? aggfunc))]
  | .melt idVars valueVars varName valueName =>
    [("id_vars", .raw (Datum.ofTexts idVars)),
      ("value_vars", .raw (Datum.ofOption (valueVars.map Datum.ofTexts))),
      ("var_name", .raw (.text varName)), ("value_name", .raw (.text valueName))]
  | .window func input output partitionBy orderBy frame =>
    [("function", .raw (.text func)), ("input_column", .raw (Datum.ofText? input)),
      ("output_column", .raw (.text output)), ("partition_by", .raw (Datum.ofTexts partitionBy)),
      ("order_by", .raw (.list (orderBy.map SortKey.toTuple))), ("frame", .raw frame)]
  | .bare => []
  | .loose _ ps => ps

def ofParams? (kind : Kind) (ps : Params) : Option Operator :=
  match kind with
  | .source => do
    return .source (← ps.text? "source_id") (← ps.option? Datum.texts? "schema") none
  | .select => do return .select (← ps.texts? "columns") (ps.expr? "predicate")
  | .filter => some (.filter (ps.get "predicate"))
  | .join => do
    match ← ps.data? "suffixes" with
    | .tuple [a, b] =>
      let suffix (d : Datum) : Option (Option String) :=
        match d with
        | .null => some none
        | .text s => some (some s)
        | _ => none
      return .join (← ps.texts? "left_on") (← ps.texts? "right_on")
        (← (ps.text? "join_type").bind JoinKind.ofName?) (← suffix a, ← suffix b)
    | _ => none
  | .groupBy => do
    return .groupBy (← ps.texts? "keys") (← (ps.data? "aggregations").bind Aggregation.listOf?)
      ((← ps.option? SortKey.listOf? "sort_keys").getD []) (← ps.option? Datum.int? "limit")
  | .aggregate => do return .aggregate (← (ps.data? "aggregations").bind Aggregation.listOf?)
  | .sort => do
    return .sort (← (ps.data? "keys").bind SortKey.listOf?) (← ps.option? Datum.int? "limit")
      (ps.expr? "predicate")
  | .limit => do
    return .limit (← (ps.data? "count").bind Datum.int?) (← (ps.text? "end").bind Side.ofName?)
  | .withColumn => do return .withColumn (← ps.text? "column") (ps.get "expression")
  | .union => some .union
  | .pivot => do
    return .pivot (← ps.texts? "index") (← ps.text? "columns") (← ps.text? "values")
      (← ps.option? Datum.text? "aggfunc")
  | .melt => do
    return .melt (← ps.texts? "id_vars") (← ps.option? Datum.texts? "value_vars")
      (← ps.text? "var_name") (← ps.text? "value_name")
  | .window => do
    return .window (← ps.text? "function") (← ps.option? Datum.text? "input_column")
      (← ps.text? "output_column") (← ps.texts? "partition_by")
      (← (ps.data? "order_by").bind SortKey.listOf?) (← ps.data? "frame")
  | .bare => some .bare

/-- The operator with these parameters, in its own form where they have the expected kinds. -/
def ofParams (kind : Kind) (ps : Params) : Operator := (ofParams? kind ps).getD (.loose kind ps)

end Operator

end Gridplan
