import Gridplan.Datum.Number
import Gridplan.Decimal.Quotient
import Gridplan.Fault

namespace Gridplan.Datum

def toFloat (n : Number) : Outcome Float :=
  match n.toFloat? with
  | some x => .ok x
  | none => .error .overflow

def onNumbers (ints : Int → Int → Int) (floats : Float → Float → Float) (a b : Datum) :
    Outcome Datum :=
  match a.number?, b.number? with
  | some (.int m), some (.int n) => .ok (.int (ints m n))
  | some m, some n => do return .float (floats (← toFloat m) (← toFloat n))
  | _, _ => .error .kind

def items : Datum → Outcome (List Datum)
  | .list xs => .ok xs
  | .tuple xs => .ok xs
  | .text s => .ok (s.toList.map fun c ↦ .text (String.singleton c))
  | .record fs => .ok (fs.map fun f ↦ .text f.1)
  | _ => .error .kind

/-- Whether data that can be gone through has an item of this value; a text has its parts. -/
def contains (container d : Datum) : Outcome Bool :=
  match container, d with
  | .text s, .text t => .ok (t = "" || (s.splitOn t).length != 1)
  | .text _, _ => .error .kind
  | c, d => do return d.isIn (← items c)

def pair (d : Datum) : Outcome (Datum × Datum) := do
  match ← items d with
  | [a, b] => return (a, b)
  | xs => .error (.arity 2 xs.length)

def repeated (n : Int) : Datum → Outcome Datum
  | .text s => .ok (.text (String.join (List.replicate n.toNat s)))
  | .list xs => .ok (.list (List.replicate n.toNat xs).flatten)
  | .tuple xs => .ok (.tuple (List.replicate n.toNat xs).flatten)
  | _ => .error .kind

def whole? (d : Datum) : Option Int :=
  match d.number? with
  | some (.int n) => some n
  | _ => none

def add : Datum → Datum → Outcome Datum
  | .text s, .text t => .ok (.text (s ++ t))
  | .list xs, .list ys => .ok (.list (xs ++ ys))
  | .tuple xs, .tuple ys => .ok (.tuple (xs ++ ys))
  | a, b => onNumbers (· + ·) (· + ·) a b

def sub (a b : Datum) : Outcome Datum := onNumbers (· - ·) (· - ·) a b

def mul (a b : Datum) : Outcome Datum :=
  match a.number?, b.number? with
  | some _, some _ => onNumbers (· * ·) (· * ·) a b
  | some (.int n), none => repeated n b
  | none, some (.int n) => repeated n a
  | _, _ => .error .kind

def div (a b : Datum) : Outcome Datum :=
  match a.number?, b.number? with
  | some (.int m), some (.int n) =>
    match Decimal.divInt? m n with
    | none => .error .zeroDivision
    | some x => if x.isFinite then .ok (.float x) else .error .overflow
  | some m, some n => do
    let x ← toFloat m
    let y ← toFloat n
    if y == 0 then .error .zeroDivision else .ok (.float (x / y))
  | _, _ => .error .kind

def mod (a b : Datum) : Outcome Datum :=
  match a.number?, b.number? with
  | some (.int m), some (.int n) => if n = 0 then .error .zeroDivision else .ok (.int (Int.fmod m n))
  | some m, some n => do
    let x ← toFloat m
    let y ← toFloat n
    if y == 0 then .error .zeroDivision else .ok (.float (Decimal.floorMod x y))
  | _, _ => .error .kind

def neg (a : Datum) : Outcome Datum :=
  match a.number? with
  | some (.int n) => .ok (.int (-n))
  | some (.float x) => .ok (.float (-x))
  | none => .error .kind

def complement (a : Datum) : Outcome Datum :=
  match a.whole? with
  | some n => .ok (.int (-n - 1))
  | none => .error .kind

def bitAnd (m n : Int) : Int :=
  match m, n with
  | .ofNat a, .ofNat b => ((a &&& b : Nat) : Int)
  | .ofNat a, .negSucc b => ((a - (a &&& b) : Nat) : Int)
  | .negSucc a, .ofNat b => ((b - (a &&& b) : Nat) : Int)
  | .negSucc a, .negSucc b => .negSucc (a ||| b)

def bitOr (m n : Int) : Int := -(bitAnd (-m - 1) (-n - 1)) - 1

def both : Datum → Datum → Outcome Datum
  | .bool a, .bool b => .ok (.bool (a && b))
  | a, b =>
    match a.whole?, b.whole? with
    | some m, some n => .ok (.int (bitAnd m n))
    | _, _ => .error .kind

def either : Datum → Datum → Outcome Datum
  | .bool a, .bool b => .ok (.bool (a || b))
  | .record fs, .record gs =>
    .ok (.record (fs.map (fun f ↦ (f.1, (gs.lookup f.1).getD f.2)) ++
      gs.filter fun g ↦ !fs.any (·.1 == g.1)))
  | a, b =>
    match a.whole?, b.whole? with
    | some m, some n => .ok (.int (bitOr m n))
    | _, _ => .error .kind

mutual

def order : Datum → Datum → Outcome (Option Ordering)
  | .text s, .text t => .ok (some (compare s t))
  | .list xs, .list ys => orderList xs ys
  | .tuple xs, .tuple ys => orderList xs ys
  | a, b =>
    match a.number?, b.number? with
    | some m, some n => .ok (m.compare? n)
    | _, _ => .error .kind

def orderList : List Datum → List Datum → Outcome (Option Ordering)
  | [], [] => .ok (some .eq)
  | [], _ :: _ => .ok (some .lt)
  | _ :: _, [] => .ok (some .gt)
  | x :: xs, y :: ys => if same x y then orderList xs ys else order x y

end

inductive Comparison where
  | lt | le | gt | ge | eq | ne
deriving DecidableEq

namespace Comparison

def flip : Comparison → Comparison
  | .lt => .gt
  | .le => .ge
  | .gt => .lt
  | .ge => .le
  | .eq => .eq
  | .ne => .ne

def symbol : Comparison → String
  | .lt => "<"
  | .le => "<="
  | .gt => ">"
  | .ge => ">="
  | .eq => "=="
  | .ne => "!="

def ofSymbol? : String → Option Comparison
  | "<" => some .lt
  | "<=" => some .le
  | ">" => some .gt
  | ">=" => some .ge
  | "==" => some .eq
  | "!=" => some .ne
  | _ => none

def holds (c : Comparison) (o : Option Ordering) : Bool :=
  match c, o with
  | .lt, some .lt => true
  | .le, some .lt => true
  | .le, some .eq => true
  | .gt, some .gt => true
  | .ge, some .gt => true
  | .ge, some .eq => true
  | .eq, some .eq => true
  | .ne, some .lt => true
  | .ne, some .gt => true
  | .ne, none => true
  | _, _ => false

end Comparison

def compareBy (c : Comparison) (a b : Datum) : Outcome Bool :=
  match c with
  | .eq => .ok (same a b)
  | .ne => .ok (!same a b)
  | c => do return c.holds (← order a b)

inductive Arithmetic where
  | add | sub | mul | div | mod
deriving DecidableEq

def Arithmetic.ofSymbol? : String → Option Arithmetic
  | "+" => some .add
  | "-" => some .sub
  | "*" => some .mul
  | "/" => some .div
  | "%" => some .mod
  | _ => none

def Arithmetic.apply : Arithmetic → Datum → Datum → Outcome Datum
  | .add => Datum.add
  | .sub => Datum.sub
  | .mul => Datum.mul
  | .div => Datum.div
  | .mod => Datum.mod

end Gridplan.Datum

namespace Gridplan.Number

def plus (a b : Number) : Outcome Number := do
  match (← Datum.add a.toDatum b.toDatum).number? with
  | some n => return n
  | none => .error .kind

def times (a b : Number) : Outcome Number := do
  match (← Datum.mul a.toDatum b.toDatum).number? with
  | some n => return n
  | none => .error .kind

end Gridplan.Number
