import Gridplan.Datum.Number

namespace Gridplan

/-- The name of a column. Most are texts; a pivoted frame is labelled by values. -/
abbrev Label := Datum

/-- The cells of a column. A missing cell is not-a-number among floating-point cells and `null`
among mixed ones; integers are 64 bits wide. -/
inductive Column where
  | ints (cells : List Int)
  | floats (cells : List Float)
  | bools (cells : List Bool)
  | mixed (cells : List Datum)
deriving DecidableEq, Inhabited

namespace Column

def length : Column → Nat
  | .ints xs => xs.length
  | .floats xs => xs.length
  | .bools xs => xs.length
  | .mixed xs => xs.length

def toList : Column → List Datum
  | .ints xs => xs.map .int
  | .floats xs => xs.map .float
  | .bools xs => xs.map .bool
  | .mixed xs => xs

def rearrange (f : {α : Type} → List α → List α) : Column → Column
  | .ints xs => .ints (f xs)
  | .floats xs => .floats (f xs)
  | .bools xs => .bools (f xs)
  | .mixed xs => .mixed (f xs)

end Column

/-- A table with labelled columns; `index` names its rows. -/
structure Frame where
  columns : List (Label × Column)
  index : List Int
deriving DecidableEq, Inhabited

namespace Frame

def height (f : Frame) : Nat := f.index.length

def labels (f : Frame) : List Label := f.columns.map (·.1)

def column? (f : Frame) (l : Label) : Option Column :=
  (f.columns.find? (·.1.same l)).map (·.2)

def numbered (n : Nat) : List Int := (List.range n).map Int.ofNat

end Frame

end Gridplan
