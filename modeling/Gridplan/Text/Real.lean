import Gridplan.Text.Integer
import Gridplan.Decimal.Scientific

namespace Gridplan.Text

def plainDigit (c : Char) : Char :=
  match digitValue? c with
  | some d => Char.ofNat (48 + d)
  | none => c

/-- Characters without the underscores between digits; another underscore is refused. The flag says
that the character before is a digit. -/
def dropUnderscores : Bool → List Char → Option (List Char)
  | _, [] => some []
  | afterDigit, '_' :: cs =>
    if afterDigit && (cs.head?.map Char.isDigit).getD false then dropUnderscores false cs else none
  | _, c :: cs => (dropUnderscores c.isDigit cs).map (c :: ·)

def readExponent : List Char → Option Int
  | [] => some 0
  | e :: cs =>
    if e == 'e' || e == 'E' then
      match cs with
      | '-' :: ds => (digitsValue ds false 0).map fun n ↦ -(n : Int)
      | '+' :: ds => (digitsValue ds false 0).map Int.ofNat
      | ds => (digitsValue ds false 0).map Int.ofNat
    else none

def readMagnitude (cs : List Char) : Option Float :=
  let word := String.ofList (cs.map Char.toLower)
  if word == "inf" || word == "infinity" then some (1.0 / 0.0)
  else if word == "nan" then some (0.0 / 0.0)
  else
    let whole := cs.takeWhile Char.isDigit
    let rest := cs.dropWhile Char.isDigit
    let (part, rest) := match rest with
      | '.' :: rest => (rest.takeWhile Char.isDigit, rest.dropWhile Char.isDigit)
      | rest => ([], rest)
    match digitsValue (whole ++ part) false 0, readExponent rest with
    | some m, some e => some (Decimal.scientific m (e - part.length))
    | _, _ => none

def readFloat (s : String) : Option Float :=
  match dropUnderscores false ((trimList s.toList).map plainDigit) with
  | some ('-' :: cs) => (readMagnitude cs).map (-·)
  | some ('+' :: cs) => readMagnitude cs
  | some cs => readMagnitude cs
  | none => none

end Gridplan.Text
