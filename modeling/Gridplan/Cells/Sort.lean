import Gridplan.Cells.Basic

namespace Gridplan.Cells

/-- What a cell is sorted by: numbers, and texts that denote numbers, come before other texts. -/
inductive SortKey where
  | number (x : Float)
  | text (s : String)

namespace SortKey

def ofCell (d : Datum) : Outcome SortKey := do
  match ← d.asFloat? with
  | some x => return .number x
  | none => return .text d.display

def lt : SortKey → SortKey → Bool
  | .number x, .number y => x < y
  | .number _, .text _ => true
  | .text _, .number _ => false
  | .text s, .text t => s < t

end SortKey

/-- Items arranged by their keys; items with equal keys keep their order in both directions. -/
def arrange {α : Type} (ascending : Bool) (keyed : List (SortKey × α)) : List α :=
  (keyed.mergeSort fun a b ↦ if ascending then !b.1.lt a.1 else !a.1.lt b.1).map (·.2)

/-- The cell of a row that a column number from zero names. A row too short has an empty cell there;
negative numbers count from the end. -/
def cellAt (i : Int) (row : Datum) : Outcome Datum := do
  if i < (← row.size) then row.item i else return .text ""

def sortOnce (key : Datum) (ascending : Bool) (rs : List Datum) : Outcome (List Datum) :=
  match key with
  | .list _ => do
    let keyed ← (rs.zip (column key)).mapM fun (r, d) ↦ do return (← SortKey.ofCell d, r)
    return arrange ascending keyed
  | key => do
    let i := (← key.asInt) - 1
    let keyed ← rs.mapM fun r ↦ do return (← SortKey.ofCell (← cellAt i r), r)
    return arrange ascending keyed

def keyPairs : List Datum → List (Datum × Bool)
  | key :: ascending :: rest => (key, ascending.truthy) :: keyPairs rest
  | _ => []

def sortRows (keys : List (Datum × Bool)) (rs : List Datum) : Outcome (List Datum) :=
  keys.reverse.foldlM (fun rs (key, ascending) ↦ sortOnce key ascending rs) rs

def sort (data : Datum) (arguments : List Datum) : Outcome Datum :=
  match rows data with
  | [] => .ok blank
  | rs => do return .list (← sortRows (keyPairs arguments) rs)

end Gridplan.Cells
