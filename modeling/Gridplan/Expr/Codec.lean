import Gridplan.Expr.Basic
import Gridplan.Datum.Arithmetic

namespace Gridplan.Expr

mutual

/-- The record of an expression; a value in place of an operand has none. -/
def toDatum : Expr → Outcome Datum
  | .verbatim t => .ok (.record [("type", .text "expression"), ("expr", .text t)])
  | .column n => .ok (.record [("type", .text "column"), ("name", .text n)])
  | .literal v => .ok (.record [("type", .text "literal"), ("value", v)])
  | .binary op l r => do
    return .record [("type", .text "binary_op"), ("op", .text op),
      ("left", ← toDatum l), ("right", ← toDatum r)]
  | .unary op e => do
    return .record [("type", .text "unary_op"), ("op", .text op), ("operand", ← toDatum e)]
  | .call f args => do
    return .record [("type", .text "function_call"), ("func", .text f),
      ("args", .list (← toDatumList args))]
  | .raw _ => .error .member

def toDatumList : List Expr → Outcome (List Datum)
  | [] => .ok []
  | e :: es => do return (← toDatum e) :: (← toDatumList es)

end

def stored : Expr → Outcome Datum
  | .raw d => .ok d
  | e => e.toDatum

def need (d : Datum) (key : String) : Outcome Datum :=
  match d.field? key with
  | some v => .ok v
  | none => .error .label

def needText (d : Datum) (key : String) : Outcome String := do
  match ← need d key with
  | .text s => .ok s
  | _ => .error .kind

def tag (fs : List (String × Datum)) : Outcome String :=
  match fs.lookup "type" with
  | none => .ok "expression"
  | some (.text s) => .ok s
  | some (.list _) | some (.record _) => .error .kind
  | some _ => .ok ""

def decode : Nat → Datum → Outcome Expr
  | 0, _ => .error .kind
  | depth + 1, .record fs => do
    let d := Datum.record fs
    match ← tag fs with
    | "column" => return .column (← needText d "name")
    | "literal" => return .literal (← need d "value")
    | "binary_op" =>
      let op ← needText d "op"
      return .binary op (← decode depth (← need d "left")) (← decode depth (← need d "right"))
    | "unary_op" =>
      let op ← needText d "op"
      return .unary op (← decode depth (← need d "operand"))
    | "function_call" =>
      let f ← needText d "func"
      let args ← Datum.items ((d.field? "args").getD (.list []))
      return .call f (← args.mapM (decode depth))
    | _ =>
      match d.field? "expr" with
      | none => return .verbatim ""
      | some (.text t) => return .verbatim t
      | some _ => .error .kind
  | _ + 1, _ => .error .member

def ofDatum (d : Datum) : Outcome Expr := decode d.depth d

end Gridplan.Expr
