import Gridplan.Frame.Column
import Gridplan.Datum.Arithmetic

namespace Gridplan

/-- A single datum or a column of them. Beside a column a single datum stands for copies of itself. -/
inductive Quantity where
  | single (d : Datum)
  | column (c : Column)
deriving DecidableEq, Inhabited

namespace Column

open Datum (Arithmetic Comparison)

def zipCells (f : Datum → Datum → Outcome Datum) (a b : Column) : Outcome Column := do
  let cells ← (a.toList.zip b.toList).mapM fun (x, y) ↦
    if x.isMissing || y.isMissing then .ok .null else f x y
  return .mixed cells

def whole? : Column → Option (List Int)
  | .ints xs => some xs
  | .bools xs => some (xs.map fun b ↦ if b then 1 else 0)
  | _ => none

def zipNumbers (ints : Int → Int → Int) (floats : Float → Float → Float) (a b : Column) :
    Outcome Column :=
  match a.whole?, b.whole? with
  | some xs, some ys => .ok (.ints ((xs.zip ys).map fun (x, y) ↦ wrap (ints x y)))
  | _, _ =>
    match a.floats?, b.floats? with
    | some xs, some ys => .ok (.floats ((xs.zip ys).map fun (x, y) ↦ floats x y))
    | _, _ => .error .kind

/-- The remainder of floating-point cells; there is none by zero. -/
def floatMod (x y : Float) : Float := if y == 0 then nan else Decimal.floorMod x y

/-- Remainders of whole columns. A zero among integer divisors makes the column floating-point. -/
def modWhole (divisor : Column) (xs ys : List Int) : Column :=
  let cells := xs.zip ys
  match divisor with
  | .ints _ =>
    if ys.any (· == 0) then
      .floats (cells.map fun (x, y) ↦ if y = 0 then nan else Float.ofInt (Int.fmod x y))
    else .ints (cells.map fun (x, y) ↦ Int.fmod x y)
  | _ => .ints (cells.map fun (x, y) ↦ if y = 0 then 0 else Int.fmod x y)

def arithmetic (op : Arithmetic) (a b : Column) : Outcome Column :=
  match op, a, b with
  | op, .mixed _, _ | op, _, .mixed _ => zipCells op.apply a b
  | .add, .bools xs, .bools ys => .ok (.bools ((xs.zip ys).map fun (x, y) ↦ x || y))
  | .sub, .bools _, .bools _ => .error .kind
  | .mul, .bools xs, .bools ys => .ok (.bools ((xs.zip ys).map fun (x, y) ↦ x && y))
  | .div, .bools _, .bools _ => .error .undefined
  | .add, a, b => zipNumbers (· + ·) (· + ·) a b
  | .sub, a, b => zipNumbers (· - ·) (· - ·) a b
  | .mul, a, b => zipNumbers (· * ·) (· * ·) a b
  | .div, a, b =>
    match a.floats?, b.floats? with
    | some xs, some ys => .ok (.floats ((xs.zip ys).map fun (x, y) ↦ x / y))
    | _, _ => .error .kind
  | .mod, a, b =>
    match a.whole?, b.whole? with
    | some xs, some ys => .ok (modWhole b xs ys)
    | _, _ => zipNumbers Int.fmod floatMod a b

/-- A comparison of cells: nothing compares with a missing cell, and everything differs from it. -/
def compareCell (c : Comparison) (x y : Datum) : Outcome Bool :=
  if x.isMissing || y.isMissing then .ok (c == .ne) else Datum.compareBy c x y

def compareNumber (c : Comparison) (x y : Datum) : Bool :=
  match x.number?, y.number? with
  | some (.int m), some (.int n) => c.holds (some (compare m n))
  | some m, some n =>
    match m.toFloat?, n.toFloat? with
    | some p, some q => c.holds ((Number.float p).compare? (.float q))
    | _, _ => c.holds (m.compare? n)
  | _, _ => c == .ne

def compareBy (c : Comparison) (a b : Column) : Outcome Column := do
  let cells := a.toList.zip b.toList
  match a, b with
  | .mixed _, _ => return .bools (← cells.mapM fun (x, y) ↦ compareCell c x y)
  | _, .mixed _ => return .bools (← cells.mapM fun (x, y) ↦ Datum.compareBy c x y)
  | _, _ => return .bools (cells.map fun (x, y) ↦ compareNumber c x y)

def compareWith (c : Comparison) (a : Column) (d : Datum) : Outcome Column :=
  if d.isMissing then .ok (.bools (a.toList.map fun _ ↦ c == .ne))
  else
    match a with
    | .mixed xs => do
      return .bools (← xs.mapM fun x ↦ compareCell c x d)
    | a =>
      match d.number?, c with
      | some _, _ => .ok (.bools (a.toList.map fun x ↦ compareNumber c x d))
      | none, .eq => .ok (.bools (a.toList.map fun _ ↦ false))
      | none, .ne => .ok (.bools (a.toList.map fun _ ↦ true))
      | none, _ => .error .kind

/-- The connectives, as operators on bits. -/
inductive Connective where
  | both | either
deriving DecidableEq

namespace Connective

def apply : Connective → Datum → Datum → Outcome Datum
  | .both => Datum.both
  | .either => Datum.either

def onBits : Connective → Int → Int → Int
  | .both => Datum.bitAnd
  | .either => Datum.bitOr

def onBools : Connective → Bool → Bool → Bool
  | .both => (· && ·)
  | .either => (· || ·)

end Connective

def cellHolds (d : Datum) : Bool := !d.isMissing && d.truthy

/-- The connective of two columns. It works on bits when both columns are integers; otherwise the
outcome is a truth value, false where the left cell is missing. -/
def connect (op : Connective) : Column → Column → Outcome Column
  | .ints xs, .ints ys => .ok (.ints ((xs.zip ys).map fun (x, y) ↦ op.onBits x y))
  | .bools xs, b => .ok (.bools ((xs.zip b.toList).map fun (x, y) ↦ op.onBools x (cellHolds y)))
  | a, b => do
    let cells ← (a.toList.zip b.toList).mapM fun (x, y) ↦ do
      if x.isMissing then return false
      return (← op.apply x (if y.isMissing then .bool false else y)).truthy
    return .bools cells

def connectWith (op : Connective) (a : Column) (d : Datum) : Outcome Column :=
  match a, d with
  | .ints _, .int n => if fits n then a.connect op (fill a.length d) else .error .overflow
  | .ints _, .bool _ | .bools _, .bool _ | .bools _, .int _ => a.connect op (fill a.length d)
  | .mixed xs, d => do
    let y := if d.isMissing then d else .bool d.truthy
    return .bools (← xs.mapM fun x ↦ do
      if x.isMissing then return false
      return (← op.apply x y).truthy)
  | _, _ => .error .kind

def neg : Column → Outcome Column
  | .ints xs => .ok (.ints (xs.map fun x ↦ wrap (-x)))
  | .floats xs => .ok (.floats (xs.map fun x ↦ -x))
  | .bools xs => .ok (.bools (xs.map (!·)))
  | .mixed xs => do return .mixed (← xs.mapM Datum.neg)

def complement : Column → Outcome Column
  | .ints xs => .ok (.ints (xs.map fun x ↦ -x - 1))
  | .floats xs => if xs.isEmpty then .ok (.floats []) else .error .kind
  | .bools xs => .ok (.bools (xs.map (!·)))
  | .mixed xs => do return .mixed (← xs.mapM Datum.complement)

def beside (c : Column) (d : Datum) : Outcome Column :=
  match d with
  | .list xs => if xs.length = c.length then .ok (ofList xs) else .error .value
  | .int n =>
    match c with
    | .mixed _ => .ok (.mixed (List.replicate c.length d))
    | .floats _ =>
      match Decimal.ofInt? n with
      | some x => .ok (.floats (List.replicate c.length x))
      | none => .error .overflow
    | _ => if fits n then .ok (fill c.length d) else .error .overflow
  | .float _ | .bool _ => .ok (fill c.length d)
  | d =>
    match c with
    | .mixed xs =>
      if d.isMissing && xs.any (!·.isMissing) then .error .kind
      else .ok (.mixed (List.replicate c.length d))
    | _ => .error .kind

end Column

namespace Quantity

open Datum (Arithmetic Comparison)

def arithmetic (op : Arithmetic) : Quantity → Quantity → Outcome Quantity
  | .single a, .single b => do return .single (← op.apply a b)
  | .column a, .single d => do return .column (← Column.arithmetic op a (← a.beside d))
  | .single d, .column b => do return .column (← Column.arithmetic op (← b.beside d) b)
  | .column a, .column b => do return .column (← Column.arithmetic op a b)

def compareBy (c : Comparison) : Quantity → Quantity → Outcome Quantity
  | .single a, .single b => do return .single (.bool (← Datum.compareBy c a b))
  | .column a, .single (.list xs) => do
    return .column (← Column.compareBy c a (← a.beside (.list xs)))
  | .single (.list xs), .column b => do
    return .column (← Column.compareBy c.flip b (← b.beside (.list xs)))
  | .column a, .single d => do return .column (← Column.compareWith c a d)
  | .single d, .column b => do return .column (← Column.compareWith c.flip b d)
  | .column a, .column b => do return .column (← Column.compareBy c a b)

def connect (op : Column.Connective) : Quantity → Quantity → Outcome Quantity
  | .single a, .single b => do return .single (← op.apply a b)
  | .column a, .single (.list xs) => do
    return .column (← Column.connect op a (.mixed (← a.beside (.list xs)).toList))
  | .single (.list xs), .column b => do
    return .column (← Column.connect op b (.mixed (← b.beside (.list xs)).toList))
  | .column a, .single d => do return .column (← Column.connectWith op a d)
  | .single d, .column b => do return .column (← Column.connectWith op b d)
  | .column a, .column b => do return .column (← Column.connect op a b)

def neg : Quantity → Outcome Quantity
  | .single d => do return .single (← d.neg)
  | .column c => do return .column (← c.neg)

def complement : Quantity → Outcome Quantity
  | .single d => do return .single (← d.complement)
  | .column c => do return .column (← c.complement)

end Quantity

end Gridplan
