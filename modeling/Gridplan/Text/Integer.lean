import Gridplan.Text.Classes

namespace Gridplan.Text

/-- The digits of a number; the flag says that the last character was a digit. -/
def digitsValue : List Char → Bool → Nat → Option Nat
  | [], afterDigit, n => if afterDigit then some n else none
  | '_' :: cs, afterDigit, n => if afterDigit then digitsValue cs false n else none
  | c :: cs, _, n =>
    match digitValue? c with
    | some d => digitsValue cs true (n * 10 + d)
    | none => none

def readInt (s : String) : Option Int :=
  match trimList s.toList with
  | '-' :: cs => (digitsValue cs false 0).map fun n ↦ -(n : Int)
  | '+' :: cs => (digitsValue cs false 0).map Int.ofNat
  | cs => (digitsValue cs false 0).map Int.ofNat

end Gridplan.Text
