import Gridplan.Cells.Basic

namespace Gridplan.Cells

/-- Whether two cells hold the same: as data, as numbers, or else as text. -/
def agree (a b : Datum) : Outcome Bool :=
  if a.same b then .ok true
  else do
    match ← a.asFloat? with
    | none => return a.display == b.display
    | some x =>
      match ← b.asFloat? with
      | none => return a.display == b.display
      | some y => return x == y

def find {α : Type} (key : Datum) : List (Datum × α) → Outcome (Option α)
  | [] => .ok none
  | (d, a) :: rest => do if ← agree d key then return some a else find key rest

def position (cells : List Datum) (key : Datum) : Outcome Datum := do
  match ← find key cells.zipIdx with
  | some i => return .int (i + 1)
  | none => return notFound

def xmatch (keys cells : Datum) : Outcome Datum :=
  match column keys with
  | [key] => position (column cells) key
  | keys => do return .list (← keys.mapM fun k ↦ do return .list [← position (column cells) k])

/-- The row that stands for a missing result: the first row of an array, or one cell repeated to the
width of the results. -/
def defaultRow (results : List Datum) (otherwise : Datum) : Outcome Datum :=
  match otherwise with
  | .list [] => .ok (.list [.text ""])
  | .list _ => .ok (((rows otherwise)[0]?).getD .null)
  | d =>
    match results with
    | [] => .ok (.list [d])
    | r :: _ => do return .list (List.replicate (← r.size) d)

def lookupRow (cells results : List Datum) (otherwise key : Datum) : Outcome Datum := do
  match ← find key (cells.zip results) with
  | some r => return r
  | none => defaultRow results otherwise

def xlookup (keys cells results otherwise : Datum) : Outcome Datum :=
  let otherwise := if otherwise == .null then notFound else otherwise
  let look := lookupRow (column cells) (rows results) otherwise
  match column keys with
  | [key] => do
    let r ← look key
    if (← r.size) = 1 then r.item 0 else return .list [r]
  | keys => do return .list (← keys.mapM look)

end Gridplan.Cells
