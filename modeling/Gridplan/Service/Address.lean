import Gridplan.Grid.Letters

namespace Gridplan.Service

def columnName : Nat → List Char
  | 0 => []
  | n + 1 => columnName (n / 26) ++ [Grid.letter (n % 26)]
termination_by n => n
decreasing_by omega

/-- The address of a cell. A column that is not positive has no letters. -/
def cellName (row col : Int) : String := String.ofList (columnName col.toNat) ++ toString row

def rangeName (row col rowEnd colEnd : Int) : String :=
  cellName row col ++ ":" ++ cellName rowEnd colEnd

end Gridplan.Service
