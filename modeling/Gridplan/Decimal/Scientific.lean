namespace Gridplan.Decimal

/-- The number nearest to `m * 10 ^ e`. Far outside the range it is infinite or zero. -/
def scientific (m : Nat) (e : Int) : Float :=
  if m = 0 then 0
  else
    let top := (Nat.toDigits 10 m).length + e
    if 400 < top then 1.0 / 0.0
    else if top < -400 then 0
    else if 0 ≤ e then Float.ofScientific m false e.toNat
    else Float.ofScientific m true (-e).toNat

end Gridplan.Decimal
