import Gridplan.Datum.Arithmetic
import Gridplan.Text.Real

namespace Gridplan.Datum

/-- The number that data denotes: a number is itself and a text is read. Other data denotes none, and
an integer may be too large. -/
def asFloat? : Datum → Outcome (Option Float)
  | .text s => .ok (Text.readFloat s)
  | d =>
    match d.number? with
    | some n => do return some (← toFloat n)
    | none => .ok none

def asInt : Datum → Outcome Int
  | .int n => .ok n
  | .bool b => .ok (if b then 1 else 0)
  | .float x =>
    match Decimal.Binary.ofFloat x with
    | some b => .ok b.truncate
    | none => .error (if x.isNaN then .value else .overflow)
  | .text s =>
    match Text.readInt s with
    | some n => .ok n
    | none => .error .value
  | _ => .error .kind

def size : Datum → Outcome Nat
  | .list xs => .ok xs.length
  | .tuple xs => .ok xs.length
  | .text s => .ok s.length
  | .record fs => .ok fs.length
  | _ => .error .kind

/-- The place that a position counted from the start, or from the end when negative, stands for in a
sequence of a length. -/
def place? (n : Nat) (i : Int) : Option Nat :=
  if 0 ≤ i then some i.toNat else if (-i).toNat ≤ n then some (n - (-i).toNat) else none

/-- The item of a sequence at a position; a record has no positions. -/
def item (i : Int) : Datum → Outcome Datum
  | .list xs | .tuple xs => at? i xs
  | .text s => at? i (s.toList.map fun c ↦ .text (String.singleton c))
  | .record _ => .error .label
  | _ => .error .kind
where
  at? (i : Int) (xs : List Datum) : Outcome Datum :=
    match (place? xs.length i).bind (xs[·]?) with
    | some d => .ok d
    | none => .error .position

/-- The first items of a list; a negative number is the number of items left out at the end. -/
def upTo {α : Type} (n : Int) (xs : List α) : List α :=
  if 0 ≤ n then xs.take n.toNat else xs.take (xs.length - (-n).toNat)

def cut (n : Int) : Datum → Outcome Datum
  | .list xs => .ok (.list (upTo n xs))
  | .tuple xs => .ok (.tuple (upTo n xs))
  | .text s => .ok (.text (String.ofList (upTo n s.toList)))
  | _ => .error .kind

end Gridplan.Datum
