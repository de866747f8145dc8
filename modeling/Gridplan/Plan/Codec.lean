import Gridplan.Plan.Build
import Gridplan.Expr.Codec

namespace Gridplan.Plan

def storedParam (ps : Params) (name : String) : Outcome (String × Datum) := do
  return (name, ← (ps.get name).stored)

def storedLists (ps : Params) (name : String) : Outcome (String × Datum) := do
  let items ← (← ps.items name).mapM fun t ↦ do return Datum.list (← t.items)
  return (name, .list items)

def storedNames (ps : Params) (name : String) : Outcome (String × Datum) := do
  match ← (ps.get name).stored with
  | .list xs => return (name, .list xs)
  | d => return (name, .list [d])

def storedIfGiven (ps : Params) (name : String) : Outcome (List (String × Datum)) := do
  if (ps.get name).isMissing then return [] else return [← storedParam ps name]

def tagged (kind : Kind) (fields : List (String × Datum)) : Datum :=
  .record (("type", .text kind.tag) :: fields)

mutual

def toDatum : Plan → Outcome Datum
  | .node _ op inputs => do
    let ps := op.params
    match op.kind with
    | .bare => .error (.unwritable Kind.bare.title)
    | .source =>
      return tagged .source
        [← storedParam ps "source_id", ← storedParam ps "schema", ("inputs", .list [])]
    | .select =>
      let columns ← storedParam ps "columns"
      let input ← headToDatum inputs
      return tagged .select ([columns, ("input", input)] ++ (← storedIfGiven ps "predicate"))
    | .filter =>
      let predicate ← storedParam ps "predicate"
      return tagged .filter [predicate, ("input", ← headToDatum inputs)]
    | .join =>
      return tagged .join
        [← storedNames ps "left_on", ← storedNames ps "right_on", ← storedParam ps "join_type",
          ← storedParam ps "suffixes", ("inputs", .list (← listToDatum inputs))]
    | .groupBy =>
      let keys ← storedParam ps "keys"
      let aggs ← storedLists ps "aggregations"
      let input ← headToDatum inputs
      let sortKeys ←
        if (ps.get "sort_keys").truthy then do pure [← storedLists ps "sort_keys"] else pure []
      return tagged .groupBy
        ([keys, aggs, ("input", input)] ++ sortKeys ++ (← storedIfGiven ps "limit"))
    | .aggregate =>
      let aggs ← storedLists ps "aggregations"
      return tagged .aggregate [aggs, ("input", ← headToDatum inputs)]
    | .sort =>
      let keys ← storedLists ps "keys"
      let input ← headToDatum inputs
      return tagged .sort ([keys, ("input", input)] ++ (← storedIfGiven ps "limit") ++
        (← storedIfGiven ps "predicate"))
    | .limit =>
      return tagged .limit
        [← storedParam ps "count", ← storedParam ps "end", ("input", ← headToDatum inputs)]
    | .withColumn =>
      let column ← storedParam ps "column"
      let expression ← storedParam ps "expression"
      return tagged .withColumn [column, expression, ("input", ← headToDatum inputs)]
    | .union => return tagged .union [("inputs", .list (← listToDatum inputs))]
    | .pivot =>
      return tagged .pivot
        [← storedNames ps "index", ← storedParam ps "columns", ← storedParam ps "values",
          ← storedParam ps "aggfunc", ("input", ← headToDatum inputs)]
    | .melt =>
      return tagged .melt
        [← storedParam ps "id_vars", ← storedParam ps "value_vars", ← storedParam ps "var_name",
          ← storedParam ps "value_name", ("input", ← headToDatum inputs)]
    | .window =>
      return tagged .window
        [← storedParam ps "function", ← storedParam ps "input_column",
          ← storedParam ps "output_column", ← storedParam ps "partition_by",
          ← storedLists ps "order_by", ← storedParam ps "frame", ("input", ← headToDatum inputs)]

def headToDatum : List Plan → Outcome Datum
  | [] => .error .position
  | p :: _ => toDatum p

def listToDatum : List Plan → Outcome (List Datum)
  | [] => .ok []
  | p :: ps => do return (← toDatum p) :: (← listToDatum ps)

end

def kindOf (d : Datum) : Outcome Kind :=
  match (d.field? "type").getD .null with
  | .text s =>
    if s = "" then .error (.plan .untyped)
    else
      match Kind.ofTag? s with
      | some k => .ok k
      | none => .error (.plan (.unknownType (.text s)))
  | t =>
    if !t.truthy then .error (.plan .untyped)
    else
      match t with
      | .list _ | .record _ => .error .kind
      | t => .error (.plan (.unknownType t))

def inputRecords (d : Datum) : Outcome (List Datum) :=
  let listed := (d.field? "inputs").getD (.list [])
  let found := if listed.truthy then listed
    else
      match d.field? "input" with
      | none | some .null => listed
      | some (.record fs) => .list [.record fs]
      | some other => other
  match found with
  | .record fs => .ok [.record fs]
  | other => other.items

def tuples (d : Datum) : Outcome Datum := do
  return .list (← (← d.items).mapM fun t ↦ do return Datum.tuple (← t.items))

def restored (kind : Kind) (name : String) (d : Datum) : Outcome Datum :=
  match kind, name with
  | .groupBy, "aggregations" | .aggregate, "aggregations" | .sort, "keys" | .window, "order_by" =>
    tuples d
  | .join, "suffixes" => do return .tuple (← d.items)
  | _, _ => .ok d

def structural (kind : Kind) (name : String) : Bool :=
  ["type", "inputs", "input"].contains name ||
    (kind.isBinary && (name == "left" || name == "right")) || (kind == .source && name == "data")

def decode : Nat → Datum → Outcome Plan
  | 0, _ => .error .kind
  | depth + 1, .record fs => do
    let d := Datum.record fs
    let kind ← kindOf d
    let inputs ← (← inputRecords d).mapM (decode depth)
    let given := fs.filter fun f ↦ !structural kind f.1
    let params ← given.mapM fun (n, v) ↦ do return (n, Expr.raw (← restored kind n v))
    build kind { params, inputs }
  | _ + 1, _ => .error .member

/-- Reads a plan and checks every node again. Expressions are not read back and stay records in their
places, and the data of sources is not stored. -/
def ofDatum (d : Datum) : Outcome Plan := decode d.depth d

def withInputs (p : Plan) (inputs : List Plan) : Outcome Plan := do
  let d ← p.toDatum
  let new ← listToDatum inputs
  ofDatum (.record (d.fields.filter (·.1 != "inputs") ++ [("inputs", .list new)]))

end Gridplan.Plan
