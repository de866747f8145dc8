import Gridplan.Expr.Basic
import Gridplan.Frame.Quantity

namespace Gridplan

/-- The nearest whole number, a half to the even neighbour; a zero keeps its sign. -/
def roundEven (x : Float) : Float :=
  let low := x.floor
  let rest := x - low
  let r :=
    if rest < 0.5 then low
    else if 0.5 < rest then low + 1
    else if Decimal.remainder low 2 == 0 then low else low + 1
  if r == 0 && (x < 0 || 1 / x < 0) then -0.0 else r

def roundPlaces (places : Int) (x : Float) : Float :=
  if !x.isFinite then x
  else if places = 0 then roundEven x
  else
    let scale := Decimal.ofRatio (Nat.pow 10 places.natAbs) 1
    if 0 < places then roundEven (x * scale) / scale else roundEven (x / scale) * scale

def roundInt (places : Int) (n : Int) : Int :=
  if 0 ≤ places then n
  else
    let scale := Nat.pow 10 places.natAbs
    let q := (Decimal.roundDiv n.natAbs scale : Int) * scale
    if n < 0 then -q else q

namespace Func

inductive Real where
  | sqrt | log | exp

def Real.apply : Real → Float → Float
  | .sqrt => Float.sqrt
  | .log => Float.log
  | .exp => Float.exp

/-- The value at a truth value, which has only eleven bits. -/
def Real.applyBool : Real → Bool → Float
  | .exp, true => 2.71875
  | f, b => f.apply (if b then 1 else 0)

def real (f : Real) : Quantity → Outcome Quantity
  | .single (.bool b) => .ok (.single (.float (f.applyBool b)))
  | .single d =>
    match d.number?.bind Number.toFloat? with
    | some x => .ok (.single (.float (f.apply x)))
    | none => .error .kind
  | .column (.bools xs) => .ok (.column (.floats (xs.map f.applyBool)))
  | .column (.mixed xs) => if xs.isEmpty then .ok (.column (.mixed [])) else .error .kind
  | .column c =>
    match c.floats? with
    | some xs => .ok (.column (.floats (xs.map f.apply)))
    | none => .error .kind

def absDatum : Datum → Outcome Datum
  | .int n => .ok (.int n.natAbs)
  | .float x => .ok (.float x.abs)
  | .bool b => .ok (.bool b)
  | _ => .error .kind

def abs : Quantity → Outcome Quantity
  | .single d => do return .single (← absDatum d)
  | .column (.ints xs) => .ok (.column (.ints (xs.map fun x ↦ Column.wrap x.natAbs)))
  | .column (.floats xs) => .ok (.column (.floats (xs.map Float.abs)))
  | .column (.bools xs) => .ok (.column (.bools xs))
  | .column (.mixed xs) => do
    return .column (.mixed (← xs.mapM fun d ↦
      match d with
      | .bool b => .ok (.int (if b then 1 else 0))
      | d => absDatum d))

def wholeOf (x : Float) : Outcome Datum :=
  match Decimal.Binary.ofFloat x with
  | some b => .ok (.int b.truncate)
  | none => .error (if x.isNaN then .value else .overflow)

def whole (f : Float → Float) : Quantity → Outcome Quantity
  | .single (.float x) => .ok (.single (.float (f x)))
  | .single d => if d.number?.isSome then .ok (.single d) else .error .kind
  | .column (.floats xs) => .ok (.column (.floats (xs.map f)))
  | .column (.mixed xs) => do
    return .column (.mixed (← xs.mapM fun d ↦
      match d with
      | .float x => wholeOf (f x)
      | .int n => .ok (.int n)
      | .bool b => .ok (.int (if b then 1 else 0))
      | _ => .error .kind))
  | .column c => .ok (.column c)

/-- Rounding to decimal places. A column of text or truth values is left as it is. -/
def round (places : Int) : Quantity → Outcome Quantity
  | .single (.float x) => .ok (.single (.float (roundPlaces places x)))
  | .single (.int n) => .ok (.single (.int (roundInt places n)))
  | .single (.bool b) => .ok (.single (.float (if b then 1 else 0)))
  | .single _ => .error .kind
  | .column (.ints xs) => .ok (.column (.ints (xs.map (roundInt places))))
  | .column (.floats xs) => .ok (.column (.floats (xs.map (roundPlaces places))))
  | .column c => .ok (.column c)

def names : List String := ["abs", "round", "sqrt", "log", "exp", "floor", "ceil"]

def apply (name : String) (args : List Quantity) : Outcome Quantity :=
  match name, args with
  | "abs", [a] => abs a
  | "round", [a] => round 0 a
  | "round", [a, .single d] =>
    match d.whole? with
    | some n => round n a
    | none => .error .kind
  | "sqrt", [a] => real .sqrt a
  | "log", [a] => real .log a
  | "exp", [a] => real .exp a
  | "floor", [a] => whole Float.floor a
  | "ceil", [a] => whole Float.ceil a
  | name, _ => if names.contains name then .error .kind else .error (.run (.function name))

end Func

def Quantity.binary (op : String) (a b : Quantity) : Outcome Quantity :=
  match Datum.Comparison.ofSymbol? op, Datum.Arithmetic.ofSymbol? op, op with
  | some c, _, _ => Quantity.compareBy c a b
  | none, some o, _ => Quantity.arithmetic o a b
  | none, none, "and" => Quantity.connect .both a b
  | none, none, "or" => Quantity.connect .either a b
  | none, none, op => .error (.run (.binaryOperator op))

namespace Expr

mutual

def evaluate (f : Frame) : Expr → Outcome Quantity
  | .column n => do return .column (← f.column (.text n))
  | .literal v => .ok (.single v)
  | .binary op l r => do
    let a ← evaluate f l
    let b ← evaluate f r
    Quantity.binary op a b
  | .unary "neg" e => do (← evaluate f e).neg
  | .unary "not" e => do (← evaluate f e).complement
  | .call name args => do Func.apply name (← evaluateList f args)
  | e => .error (.mismatch (.expression e.kindName))

def evaluateList (f : Frame) : List Expr → Outcome (List Quantity)
  | [] => .ok []
  | e :: es => do
    let q ← evaluate f e
    let qs ← evaluateList f es
    return q :: qs

end

end Expr

end Gridplan
