import Gridplan.Expr.Basic
import Gridplan.Datum.Arithmetic

namespace Gridplan.Expr

def plain (op : String) (a b : Datum) : Outcome Datum :=
  match Datum.Arithmetic.ofSymbol? op, Datum.Comparison.ofSymbol? op with
  | some f, _ => f.apply a b
  | none, some c => do return .bool (← Datum.compareBy c a b)
  | none, none => if op = "and" then Datum.both a b else Datum.either a b

def combine (op : String) (a b : Expr) : Outcome Expr :=
  match a, b with
  | .raw x, .raw y => do return .raw (← plain op x y)
  | .raw x, e =>
    match Datum.Comparison.ofSymbol? op with
    | some c => .ok (.binary c.flip.symbol e (.literal x))
    | none =>
      if op = "%" ∨ op = "and" ∨ op = "or" then .error .kind else .ok (.binary op (.literal x) e)
  | e, b => .ok (.binary op e b.lift)

def negate : Expr → Outcome Expr
  | .raw x => do return .raw (← x.neg)
  | e => .ok (.unary "neg" e)

def complement : Expr → Outcome Expr
  | .raw x => do return .raw (← x.complement)
  | e => .ok (.unary "not" e)

/-- A column given by a text and a name: the name, or the text when the name is empty. -/
def columnOf (text name : String) : Expr := .column (if name = "" then text else name)

/-- A literal given by its place: an empty text counts as nothing. -/
def literalAt : Datum → Expr
  | .text "" => .literal .null
  | d => .literal d

end Gridplan.Expr
