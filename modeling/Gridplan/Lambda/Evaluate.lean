import Gridplan.Text.Lower
import Gridplan.Lambda.Template
import Gridplan.Expr.Evaluate
import Gridplan.Frame.Power
import Gridplan.Frame.Summary
import Gridplan.Datum.Convert

namespace Gridplan.Lambda

inductive Value where
  | frame (f : Frame)
  | quantity (q : Quantity)
  /-- The texts of a column, which have functions of their own. -/
  | texts (cells : List Datum)

namespace Value

def single (d : Datum) : Value := .quantity (.single d)

def asQuantity : Value → Outcome Quantity
  | .quantity q => .ok q
  | _ => .error .kind

def asDatum : Value → Outcome Datum
  | .quantity (.single d) => .ok d
  | _ => .error .kind

def truth : Value → Outcome Bool
  | .quantity (.single d) => .ok d.truthy
  | _ => .error .value

def cells (f : Frame) : Value → Outcome Column
  | .quantity q => f.spread q
  | .frame g =>
    match g.columns with
    | [(_, c)] => .ok c
    | _ => .error .value
  | .texts _ => .error .kind

def part (v : Value) (i : Datum) : Outcome Value :=
  match v, i with
  | .frame f, .list ls => do return .frame (← f.select ls)
  | .frame f, l => do return .quantity (.column (← f.column l))
  | .quantity (.single (.record fs)), .text k =>
    match fs.lookup k with
    | some d => .ok (single d)
    | none => .error .label
  | .quantity (.single d), .int n => do return single (← d.item n)
  | .quantity (.column c), .int n =>
    match (if n < 0 then none else c.toList[n.toNat]?) with
    | some d => .ok (single d)
    | none => .error .label
  | _, _ => .error .kind

def size : Value → Outcome Nat
  | .frame f => .ok f.height
  | .quantity (.column c) => .ok c.length
  | .quantity (.single d) => d.size
  | .texts _ => .error .kind

def items : Value → Outcome (List Datum)
  | .frame f => .ok f.labels
  | .quantity (.column c) => .ok c.toList
  | .quantity (.single d) => d.items
  | .texts _ => .error .kind

def extreme (greatest : Bool) (xs : List Datum) : Outcome Datum :=
  match xs with
  | [] => .error .value
  | x :: xs => xs.foldlM (fun best y ↦ do
      return if ← Datum.compareBy (if greatest then .gt else .lt) y best then y else best) x

def round (places : Option Int) : Quantity → Outcome Quantity
  | .single (.float x) =>
    match places with
    | none => do return .single (← Func.wholeOf (roundEven x))
    | some n => .ok (.single (.float (roundPlaces n x)))
  | .single (.bool b) => .ok (.single (.int (if b then 1 else 0)))
  | q => Func.round (places.getD 0) q

end Value

def applyNamed (name : String) (args : List Value) : Outcome Value :=
  match name, args with
  | "len", [v] => do return .single (.int (← v.size))
  | "abs", [v] => do return .quantity (← Func.abs (← v.asQuantity))
  | "round", [v] => do return .quantity (← Value.round none (← v.asQuantity))
  | "round", [v, n] => do
    let q ← v.asQuantity
    match ← n.asDatum with
    | .null => return .quantity (← Value.round none q)
    | d =>
      match d.whole? with
      | some n => return .quantity (← Value.round (some n) q)
      | none => .error .kind
  | "sum", [v] => do return .single (← (← v.items).foldlM Datum.add (.int 0))
  | "min", [v] => do return .single (← Value.extreme false (← v.items))
  | "max", [v] => do return .single (← Value.extreme true (← v.items))
  | "min", v :: vs => do
    let _ ← (v :: vs).mapM Value.truth
    return .single (← Value.extreme false (← (v :: vs).mapM Value.asDatum))
  | "max", v :: vs => do
    let _ ← (v :: vs).mapM Value.truth
    return .single (← Value.extreme true (← (v :: vs).mapM Value.asDatum))
  | "str", [v] => do return .single (.text (← v.asDatum).display)
  | "int", [v] => do return .single (.int (← (← v.asDatum).asInt))
  | "bool", [v] => do return .single (.bool (← v.truth))
  | name, _ =>
    if ["len", "abs", "round", "sum", "min", "max", "str", "int", "bool"].contains name then
      .error .kind
    else .error .unbound

/-- A function of single texts, on a column of them; other cells become missing. -/
def applyText (name : String) (cells : List Datum) : Outcome Column :=
  let onTexts (f : String → Datum) : Outcome Column :=
    .ok (.mixed (cells.map fun d ↦ (d.text?.map f).getD (.float Column.nan)))
  match name with
  | "upper" => onTexts fun s ↦ .text (Text.upper s)
  | "lower" => onTexts fun s ↦ .text (Text.lower s)
  | "strip" => onTexts fun s ↦ .text (Text.trim s)
  | "len" => .ok (Column.ofList (cells.map fun d ↦ (d.text?.map fun s ↦ .int s.length).getD .null))
  | _ => .error .member

def fillMissing (c : Column) (d : Datum) : Column :=
  let cells := c.toList.map fun x ↦ if x.isMissing then d else x
  match c with
  | .mixed _ => .mixed cells
  | .floats _ => if d.number?.isSome then (Column.ofList cells).convert .floats else .mixed cells
  | c => c

def applyMember (v : Value) (name : String) (args : List Value) : Outcome Value :=
  match v, name, args with
  | .quantity (.column c), "abs", [] => do return .quantity (← Func.abs (.column c))
  | .quantity (.column c), "round", [] => do return .quantity (← Func.round 0 (.column c))
  | .quantity (.column c), "round", [n] => do
    match (← n.asDatum).whole? with
    | some n => return .quantity (← Func.round n (.column c))
    | none => .error .kind
  | .quantity (.column c), "isna", [] => .ok (.quantity (.column (.bools (c.toList.map Datum.isMissing))))
  | .quantity (.column c), "notna", [] =>
    .ok (.quantity (.column (.bools (c.toList.map (!·.isMissing)))))
  | .quantity (.column c), "fillna", [x] => do
    return .quantity (.column (fillMissing c (← x.asDatum)))
  | .quantity (.column c), "isin", [x] => do
    let xs ← (← x.asDatum).items
    return .quantity (.column (.bools (c.toList.map (·.isIn xs))))
  | .quantity (.column c), name, [] =>
    match Summary.ofName? name with
    | some s => do return .single (← c.summarize s)
    | none => .error .member
  | .texts cells, name, [] => do return .quantity (.column (← applyText name cells))
  | _, _, _ => .error .member

def member (v : Value) (name : String) : Outcome Value :=
  match v, name with
  | .frame f, name =>
    match f.column? (.text name) with
    | some c => .ok (.quantity (.column c))
    | none => .error .member
  | .quantity (.column (.mixed cells)), "str" => .ok (.texts cells)
  | _, _ => .error .member

def BinaryOp.apply (op : BinaryOp) (a b : Quantity) : Outcome Quantity :=
  match op with
  | .add => Quantity.arithmetic .add a b
  | .sub => Quantity.arithmetic .sub a b
  | .mul => Quantity.arithmetic .mul a b
  | .div => Quantity.arithmetic .div a b
  | .mod => Quantity.arithmetic .mod a b
  | .pow => a.pow b
  | .floorDiv => a.floorDiv b
  | .bitAnd => Quantity.connect .both a b
  | .bitOr => Quantity.connect .either a b
  | _ => .error .kind

def UnaryOp.apply (op : UnaryOp) (v : Value) : Outcome Value :=
  match op with
  | .neg => do return .quantity (← (← v.asQuantity).neg)
  | .pos => do return .quantity (← v.asQuantity)
  | .invert => do return .quantity (← (← v.asQuantity).complement)
  | .not => do return .single (.bool !(← v.truth))

def CompareOp.order? : CompareOp → Option Datum.Comparison
  | .eq => some .eq
  | .ne => some .ne
  | .lt => some .lt
  | .le => some .le
  | .gt => some .gt
  | .ge => some .ge
  | _ => none

def CompareOp.apply (op : CompareOp) (a b : Value) : Outcome Value :=
  match op.order? with
  | some c => do return .quantity (← Quantity.compareBy c (← a.asQuantity) (← b.asQuantity))
  | none =>
    match op with
    | .among => do return .single (.bool (← (← b.asDatum).contains (← a.asDatum)))
    | .notAmong => do return .single (.bool !(← (← b.asDatum).contains (← a.asDatum)))
    | .same => do return .single (.bool ((← a.asDatum) == (← b.asDatum)))
    | _ => do return .single (.bool ((← a.asDatum) != (← b.asDatum)))

namespace Term

mutual

def evaluate (scope : List (String × Value)) : Term → Outcome Value
  | .literal (.datum d) => .ok (.single d)
  | .literal _ => .error .kind
  | .name s =>
    match scope.lookup s with
    | some v => .ok v
    | none => .error .unbound
  | .binary op a b => do
    let x ← evaluate scope a
    let y ← evaluate scope b
    return .quantity (← op.apply (← x.asQuantity) (← y.asQuantity))
  | .unary op a => do op.apply (← evaluate scope a)
  | .compare a rest => do compareAll scope (← evaluate scope a) rest
  | .subscript a i => do
    let x ← evaluate scope a
    let k ← evaluate scope i
    x.part (← k.asDatum)
  | .attribute a n => do member (← evaluate scope a) n
  | .call (.name n) args keywords => do
    let xs ← evaluateAll scope args
    let ys ← evaluateKeywords scope keywords
    applyNamed n (xs ++ ys)
  | .call (.attribute a n) args keywords => do
    let v ← evaluate scope a
    let xs ← evaluateAll scope args
    let ys ← evaluateKeywords scope keywords
    applyMember v n (xs ++ ys)
  | .call (.lambda params _ body) args _ => do
    let xs ← evaluateAll scope args
    if xs.length = params.length then evaluate (params.zip xs ++ scope) body else .error .kind
  | .other .conjunction ts => firstWith scope false ts
  | .other .disjunction ts => firstWith scope true ts
  | .other .ifExp [c, a, b] => do
    if ← (← evaluate scope c).truth then evaluate scope a else evaluate scope b
  | .other .list ts => do
    return .single (.list (← (← evaluateAll scope ts).mapM Value.asDatum))
  | .other .tuple ts => do
    return .single (.tuple (← (← evaluateAll scope ts).mapM Value.asDatum))
  | _ => .error .kind

/-- A chain of comparisons that starts with a value: the first that fails decides. -/
def compareAll (scope : List (String × Value)) (v : Value) : List (CompareOp × Term) → Outcome Value
  | [] => .ok v
  | [(op, t)] => do op.apply v (← evaluate scope t)
  | (op, t) :: rest => do
    let w ← evaluate scope t
    let r ← op.apply v w
    if ← r.truth then compareAll scope w rest else return r

def evaluateAll (scope : List (String × Value)) : List Term → Outcome (List Value)
  | [] => .ok []
  | t :: ts => do
    let v ← evaluate scope t
    let vs ← evaluateAll scope ts
    return v :: vs

def evaluateKeywords (scope : List (String × Value)) :
    List (Option String × Term) → Outcome (List Value)
  | [] => .ok []
  | (_, t) :: ts => do
    let v ← evaluate scope t
    let vs ← evaluateKeywords scope ts
    return v :: vs

def firstWith (scope : List (String × Value)) (wanted : Bool) : List Term → Outcome Value
  | [] => .error .kind
  | [t] => evaluate scope t
  | t :: ts => do
    let v ← evaluate scope t
    if (← v.truth) = wanted then return v else firstWith scope wanted ts

end

/-- A lambda applied to one value. Parameters after the first have defaults. -/
def applyTo (v : Value) : Term → Outcome Value
  | .lambda (p :: ps) defaults body => do
    if defaults.length < ps.length then .error .kind
    else
      let ds ← evaluateAll [] (defaults.drop (defaults.length - ps.length))
      evaluate ((p, v) :: ps.zip ds) body
  | _ => .error .kind

mutual

def size : Term → Nat
  | .literal _ => 1
  | .name _ => 1
  | .binary _ a b => size a + size b + 1
  | .unary _ a => size a + 1
  | .compare a rest => size a + sizeCompared rest + 1
  | .subscript a i => size a + size i + 1
  | .attribute a _ => size a + 1
  | .call f args keywords => size f + sizeAll args + sizeKeywords keywords + 1
  | .lambda _ defaults body => sizeAll defaults + size body + 1
  | .other _ ts => sizeAll ts + 1

def sizeAll : List Term → Nat
  | [] => 0
  | t :: ts => size t + sizeAll ts

def sizeCompared : List (CompareOp × Term) → Nat
  | [] => 0
  | (_, t) :: ts => size t + sizeCompared ts

def sizeKeywords : List (Option String × Term) → Nat
  | [] => 0
  | (_, t) :: ts => size t + sizeKeywords ts

end

def levels : Nat → List Term → List Term
  | 0, _ => []
  | fuel + 1, ts => if ts.isEmpty then [] else ts ++ levels fuel (ts.flatMap parts)

def walk (t : Term) : List Term := levels t.size [t]

def body? : Term → Option Term
  | .lambda _ _ body => some body
  | _ => none

def bodyFor? (name : String) (t : Term) : Option Term :=
  let terms := t.walk
  let passed := terms.flatMap fun t ↦ match t with
    | .call _ _ keywords =>
      keywords.filterMap fun (k, t) ↦ if k = some name then t.body? else none
    | _ => []
  (passed ++ terms.filterMap body?).head?

end Term

/-- Characters in which a word in double braces stands bare. The fuel is the number of characters. -/
def bareList : Nat → List Char → List Char
  | 0, cs => cs
  | _, [] => []
  | fuel + 1, c :: cs =>
    match c, cs with
    | '\x7b', '\x7b' :: rest =>
      let word := rest.takeWhile Text.isWord
      match rest.dropWhile Text.isWord with
      | '\x7d' :: '\x7d' :: rest' => if word.isEmpty then c :: bareList fuel cs else word ++ bareList fuel rest'
      | _ => c :: bareList fuel cs
    | _, _ => c :: bareList fuel cs

def unknownFunction : String := "lambda expression"

def recorded (body : Option Term) : String :=
  match body.map Term.template with
  | some (.ok s) => String.ofList (bareList s.length s.toList)
  | _ => unknownFunction

end Gridplan.Lambda
