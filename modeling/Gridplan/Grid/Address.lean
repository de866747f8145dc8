import Gridplan.Grid.Letters
import Gridplan.Grid.Range
import Gridplan.Text.Classes

namespace Gridplan.Range

open Grid

def cellText (row col : Nat) : String := letters col ++ toString (row + 1)

def toText (r : Range) : String :=
  if r.row = r.rowEnd ∧ r.col = r.colEnd then cellText r.row r.col
  else cellText r.row r.col ++ ":" ++ cellText r.rowEnd r.colEnd

/-- The number that digits denote, on the assumption that there is no limit to how many are read. -/
def readDigits (cs : List Char) : Option Nat :=
  if cs.isEmpty then none
  else cs.foldlM (fun n c ↦ (Text.digitValue? c).map (n * 10 + ·)) 0

def isCapital (c : Char) : Bool := 'A' ≤ c && c ≤ 'Z'

/-- The row and column of an address, whatever the case of its letters; the row is one less than
the number written. -/
def readCell (s : String) : Option (Int × Int) :=
  let cs := (Text.upper s).toList
  let name := cs.takeWhile isCapital
  if name.isEmpty then none
  else do
    let n ← readDigits (cs.dropWhile isCapital)
    return ((n : Int) - 1, lettersValue name - 1)

/-- The range that a text denotes; blanks around addresses are passed over. -/
def ofText (s : String) : Outcome Range :=
  let s := Text.trim s
  if s = "" then .error (.grid .empty)
  else
    match s.toList.splitOn ':' with
    | [_] =>
      match readCell s with
      | some (row, col) => ofCorners row col row col
      | none => .error (.grid (.cell s))
    | [a, b] =>
      match readCell (Text.trim (String.ofList a)), readCell (Text.trim (String.ofList b)) with
      | some (row, col), some (rowEnd, colEnd) => ofCorners row col rowEnd colEnd
      | _, _ => .error (.grid (.range s))
    | _ => .error (.grid (.range s))

end Gridplan.Range
