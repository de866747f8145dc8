import Gridplan.Decimal.Binary

namespace Gridplan.Decimal

/-- The floating-point number nearest to a positive quotient, ties to even. The quotient is first
brought to at least 55 bits whose last one also records whether anything was cut off. -/
def ofRatio (num den : Nat) : Float :=
  if num = 0 then 0
  else
    let shift : Int := 56 + (Nat.log2 den : Int) - Nat.log2 num
    let a := if 0 ≤ shift then num * Nat.pow 2 shift.toNat else num
    let b := if 0 ≤ shift then den else den * Nat.pow 2 (-shift).toNat
    let q := a / b
    let sticky := if a % b = 0 then q else q ||| 1
    (Float.ofNat sticky).scaleB (-shift)

def divInt? (a b : Int) : Option Float :=
  if b = 0 then none
  else
    let x := ofRatio a.natAbs b.natAbs
    some (if decide (a < 0) != decide (b < 0) then -x else x)

/-- The remainder of a division cut towards zero, with the sign of the dividend, computed exactly. -/
def remainder (x y : Float) : Float :=
  match Binary.ofFloat x, Binary.ofFloat y with
  | some a, some b =>
    if b.significand = 0 then 0.0 / 0.0
    else
      let low := min a.exponent b.exponent
      let m := a.significand * Nat.pow 2 (a.exponent - low).toNat
      let n := b.significand * Nat.pow 2 (b.exponent - low).toNat
      let r := (Float.ofNat (m % n)).scaleB low
      if a.negative then -r else r
  | some _, none => if y.isNaN then y else x
  | none, _ => 0.0 / 0.0

def floorMod (x y : Float) : Float :=
  let r := remainder x y
  if r.isNaN then r
  else if r == 0 then (if y < 0 || (1.0 / y) < 0 then -0.0 else 0.0)
  else if (decide (y < 0)) != (decide (r < 0)) then r + y
  else r

end Gridplan.Decimal
