import Gridplan.Datum.Basic
import Gridplan.Decimal.Binary

namespace Gridplan

inductive Number where
  | int (n : Int)
  | float (x : Float)
deriving DecidableEq, Inhabited

namespace Number

def compare? : Number → Number → Option Ordering
  | .int a, .int b => some (compare a b)
  | .float x, .float y =>
    if x < y then some .lt else if y < x then some .gt else if x == y then some .eq else none
  | .int a, .float y => (against y a).map Ordering.swap
  | .float x, .int b => against x b
where
  against (x : Float) (n : Int) : Option Ordering :=
    match Decimal.Binary.ofFloat x with
    | some b => some (b.compareInt n)
    | none => if x.isNaN then none else if x < 0 then some .lt else some .gt

def same (a b : Number) : Bool := a.compare? b == some .eq

def toDatum : Number → Datum
  | .int n => .int n
  | .float x => .float x

def toFloat? : Number → Option Float
  | .int n => Decimal.ofInt? n
  | .float x => some x

end Number

/-- The number a datum counts as: a truth value counts as zero or one. -/
def Datum.number? : Datum → Option Number
  | .bool b => some (.int (if b then 1 else 0))
  | .int n => some (.int n)
  | .float x => some (.float x)
  | _ => none

namespace Datum

mutual

/-- Equality of data by value: numbers by size, records by field, the rest by content. -/
def same : Datum → Datum → Bool
  | .null, .null => true
  | .text s, .text t => s == t
  | .list xs, .list ys => sameList xs ys
  | .tuple xs, .tuple ys => sameList xs ys
  | .record fs, .record gs => fs.length == gs.length && sameFields fs gs
  | a, b =>
    match a.number?, b.number? with
    | some m, some n => m.same n
    | _, _ => false

def sameList : List Datum → List Datum → Bool
  | [], [] => true
  | x :: xs, y :: ys => same x y && sameList xs ys
  | _, _ => false

def sameFields : List (String × Datum) → List (String × Datum) → Bool
  | [], _ => true
  | (k, v) :: fs, gs =>
    (match gs.lookup k with
      | some w => same v w
      | none => false) && sameFields fs gs

end

def isIn (d : Datum) (xs : List Datum) : Bool := xs.any (same · d)

end Datum

end Gridplan
