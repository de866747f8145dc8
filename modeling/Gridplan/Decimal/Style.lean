import Gridplan.Decimal.Shortest

namespace Gridplan.Decimal

/-- The decisions of a written form: which leading powers of ten are written positionally, whether
a whole number keeps a point, how many digits are kept, and the three special texts. -/
structure Style where
  lowest : Int
  highest : Int
  point : Bool
  digits : Option Nat
  nan : String
  infinite : String

/-- As many digits as read back; a point is always shown. -/
def Style.exact : Style := ⟨-4, 15, true, none, "nan", "inf"⟩

def Style.document : Style := { Style.exact with nan := "NaN", infinite := "Infinity" }

def Style.brief : Style := ⟨-4, 11, false, some 12, "nan", "inf"⟩

def withPoint (ds : List Char) (places : Nat) (keep : Bool) : String :=
  let whole := ds.take places
  let rest := ds.drop places
  let whole := if whole.isEmpty then ['0'] else whole
  if rest.isEmpty then String.ofList whole ++ (if keep then ".0" else "")
  else String.ofList whole ++ "." ++ String.ofList rest

def exponentText (e : Int) : String :=
  let digits := toString e.natAbs
  (if e < 0 then "-" else "+") ++ (if digits.length < 2 then "0" ++ digits else digits)

def Style.positive (s : Style) (d : Digits) : String :=
  let ds := Nat.toDigits 10 d.digits
  let top := d.leading
  if d.digits = 0 then withPoint ['0'] 1 s.point
  else if s.lowest ≤ top ∧ top ≤ s.highest then
    if top < 0 then "0." ++ String.ofList (List.replicate (-top - 1).toNat '0' ++ ds)
    else withPoint (ds ++ List.replicate ((top + 1).toNat - ds.length) '0') (top + 1).toNat s.point
  else withPoint ds 1 false ++ "e" ++ exponentText top

def Style.write (s : Style) (x : Float) : String :=
  match Binary.ofFloat x with
  | none =>
    if x.isNaN then s.nan else if x < 0 then "-" ++ s.infinite else s.infinite
  | some b =>
    let d := match s.digits with
      | none => Digits.shortest b
      | some n => Digits.rounded n b.ratio.1 b.ratio.2
    (if b.negative then "-" else "") ++ s.positive d

end Gridplan.Decimal
