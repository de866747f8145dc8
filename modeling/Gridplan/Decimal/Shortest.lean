import Gridplan.Decimal.Binary

namespace Gridplan.Decimal

structure Digits where
  digits : Nat
  exponent : Int
deriving DecidableEq, Repr

namespace Digits

def count (n : Nat) : Nat := (Nat.toDigits 10 n).length

def strip : Nat → Digits → Digits
  | 0, d => d
  | fuel + 1, d =>
    if d.digits % 10 = 0 then strip fuel ⟨d.digits / 10, d.exponent + 1⟩ else d

def leading (d : Digits) : Int := d.exponent + (count d.digits : Int) - 1

end Digits

def leadingPower (num den : Nat) : Int :=
  if den ≤ num then (Digits.count (num / den) : Int) - 1
  else
    let shift := Digits.count den
    (Digits.count (num * Nat.pow 10 shift / den) : Int) - 1 - shift

def scaleDown (num den : Nat) (k : Int) : Nat × Nat :=
  if 0 ≤ k then (num, den * Nat.pow 10 k.toNat) else (num * Nat.pow 10 (-k).toNat, den)

namespace Digits

def rounded (n : Nat) (num den : Nat) : Digits :=
  if num = 0 then ⟨0, 0⟩
  else
    let k := leadingPower num den - (n : Int) + 1
    let (a, b) := scaleDown num den k
    strip (n + 1) ⟨roundDiv a b, k⟩

/-- The reals that round to a positive number, in quarters of its last place: the number itself,
the two ends, and whether the ends belong. -/
structure Interval where
  value : Nat
  low : Nat
  high : Nat
  closed : Bool

def Interval.of (significand : Nat) (exponent : Int) : Interval :=
  let narrow := significand = Nat.pow 2 52 ∧ -1074 < exponent
  ⟨4 * significand, if narrow then 4 * significand - 1 else 4 * significand - 2,
    4 * significand + 2, significand % 2 = 0⟩

/-- The neighbour of the value on the grid of step `10 ^ k` that reads back: the nearer one when
both do, the even one when they are equally near. -/
def Interval.hit (i : Interval) (exponent k : Int) : Option Nat :=
  let quarter := exponent - 2
  let s := Nat.pow 2 quarter.toNat * Nat.pow 10 (-k).toNat
  let t := Nat.pow 10 k.toNat * Nat.pow 2 (-quarter).toNat
  let below := i.value * s / t
  let inside (d : Nat) : Bool :=
    if i.closed then i.low * s ≤ d * t && d * t ≤ i.high * s
    else i.low * s < d * t && d * t < i.high * s
  let under := i.value * s - below * t
  let above := (below + 1) * t - i.value * s
  match inside below, inside (below + 1) with
  | true, true =>
    some (if under < above then below
      else if above < under then below + 1
      else if below % 2 = 0 then below else below + 1)
  | true, false => some below
  | false, true => some (below + 1)
  | false, false => none

/-- Tries one digit, then two, and so on; seventeen digits always read back. -/
def shortestFrom (i : Interval) (exponent top : Int) : Nat → Nat → Digits
  | 0, n => ⟨i.value, n⟩
  | fuel + 1, n =>
    let k := top - (n : Int) + 1
    match i.hit exponent k with
    | some d => strip 18 ⟨d, k⟩
    | none => shortestFrom i exponent top fuel (n + 1)

def shortest (b : Binary) : Digits :=
  if b.significand = 0 then ⟨0, 0⟩
  else
    let (num, den) := b.ratio
    shortestFrom (Interval.of b.significand b.exponent) b.exponent (leadingPower num den) 17 1

end Digits

end Gridplan.Decimal
