import Gridplan.Cells.Basic

namespace Gridplan.Cells

def keep (rs conditions : List Datum) : List Datum :=
  ((rs.zip conditions).filter fun p ↦ (single p.2).truthy).map (·.1)

def filter (data condition : Datum) (otherwise : Datum) : Datum :=
  match keep (rows data) (rows condition) with
  | [] => if otherwise == .null then blank else .list (rows otherwise)
  | rs => .list rs

def distinct (rs : List Datum) : List Datum :=
  rs.foldl (fun seen r ↦ if r.isIn seen then seen else seen ++ [r]) []

def unique (data : Datum) : Datum := orBlank (distinct (rows data))

def constrain (data height width : Datum) : Outcome Datum := do
  let m ← height.asInt
  let n ← width.asInt
  return .list (← (Datum.upTo m (rows data)).mapM (Datum.cut n))

/-- Rows turned into columns; the first row says how many there are. -/
def transpose (data : Datum) : Outcome Datum :=
  match rows data with
  | [] => .ok blank
  | r :: rs => do
    let columns ← (List.range (← r.size)).mapM fun (j : Nat) ↦ do
      return .list (← (r :: rs).mapM (Datum.item (j : Int)))
    return .list columns

end Gridplan.Cells
