import Gridplan.Text.Case

namespace Gridplan.Grid

def letter (d : Nat) : Char := Char.ofNat (65 + d)

/-- The letters of a column, the last one first decided. -/
def letterList (n : Nat) : List Char :=
  if n < 26 then [letter n] else letterList (n / 26 - 1) ++ [letter (n % 26)]
termination_by n
decreasing_by omega

def letters (n : Nat) : String := String.ofList (letterList n)

def lettersOfInt : Int → String
  | .ofNat n => letters n
  | .negSucc _ => ""

def letterValue (c : Char) : Int := (c.toNat : Int) - 64

def lettersValue (cs : List Char) : Int := cs.foldl (fun n c ↦ n * 26 + letterValue c) 0

def columnOfLetters (s : String) : Int := lettersValue (Text.upper s).toList - 1

end Gridplan.Grid
