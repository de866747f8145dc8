import Gridplan.Frame.Quantity

namespace Gridplan

def Decimal.floorQuotient (x y : Float) : Float :=
  let q := (x - floorMod x y) / y
  let low := q.floor
  if 0.5 < q - low then low + 1 else low

namespace Datum

/-- Numbers raised to powers. A power of two integers is an integer when its exponent is not
negative. -/
def pow (a b : Datum) : Outcome Datum :=
  match a.number?, b.number? with
  | some (.int m), some (.int n) =>
    if 0 ≤ n then .ok (.int (Int.pow m n.toNat))
    else if m = 0 then .error .zeroDivision
    else .ok (.float (Float.pow (Float.ofInt m) (Float.ofInt n)))
  | some m, some n => do
    let x ← toFloat m
    let y ← toFloat n
    if x == 0 && y < 0 then .error .zeroDivision else return .float (Float.pow x y)
  | _, _ => .error .kind

def floorDiv (a b : Datum) : Outcome Datum :=
  match a.number?, b.number? with
  | some (.int m), some (.int n) => if n = 0 then .error .zeroDivision else .ok (.int (Int.fdiv m n))
  | some m, some n => do
    let x ← toFloat m
    let y ← toFloat n
    if y == 0 then .error .zeroDivision else return .float (Decimal.floorQuotient x y)
  | _, _ => .error .kind

end Datum

namespace Column

def powWrapped (m : Int) : Nat → Nat → Int
  | 0, _ => 1
  | fuel + 1, n =>
    if n = 0 then 1
    else
      let half := powWrapped m fuel (n / 2)
      wrap (if n % 2 = 0 then half * half else wrap (half * half) * m)

/-- Powers of the cells of two columns. Integers have no negative powers. -/
def pow (a b : Column) : Outcome Column :=
  match a, b, a.whole?, b.whole? with
  | .mixed _, _, _, _ | _, .mixed _, _, _ => zipCells Datum.pow a b
  | _, _, some ms, some ns =>
    if ns.any (· < 0) then .error .value
    else .ok (.ints ((ms.zip ns).map fun (m, n) ↦ powWrapped m 64 n.toNat))
  | a, b, _, _ =>
    match a.floats?, b.floats? with
    | some xs, some ys => .ok (.floats ((xs.zip ys).map fun (x, y) ↦ Float.pow x y))
    | _, _ => .error .kind

def overZero (x : Float) : Float := x / 0

/-- Whole quotients of the cells of two columns. A zero among integer divisors makes the column
floating-point. -/
def floorDiv (a b : Column) : Outcome Column :=
  match a, b, a.whole?, b.whole? with
  | .mixed _, _, _, _ | _, .mixed _, _, _ => zipCells Datum.floorDiv a b
  | _, _, some ms, some ns =>
    let cells := ms.zip ns
    if ns.any (· == 0) then
      .ok (.floats (cells.map fun (m, n) ↦
        if n = 0 then overZero (Float.ofInt m) else Float.ofInt (Int.fdiv m n)))
    else .ok (.ints (cells.map fun (m, n) ↦ Int.fdiv m n))
  | a, b, _, _ =>
    match a.floats?, b.floats? with
    | some xs, some ys => .ok (.floats ((xs.zip ys).map fun (x, y) ↦
        if y == 0 then x / y else Decimal.floorQuotient x y))
    | _, _ => .error .kind

end Column

namespace Quantity

def lift (onData : Datum → Datum → Outcome Datum) (onColumns : Column → Column → Outcome Column) :
    Quantity → Quantity → Outcome Quantity
  | .single a, .single b => do return .single (← onData a b)
  | .column a, .single d => do return .column (← onColumns a (← a.beside d))
  | .single d, .column b => do return .column (← onColumns (← b.beside d) b)
  | .column a, .column b => do return .column (← onColumns a b)

def pow : Quantity → Quantity → Outcome Quantity := lift Datum.pow Column.pow

def floorDiv : Quantity → Quantity → Outcome Quantity := lift Datum.floorDiv Column.floorDiv

end Quantity

end Gridplan
