import Gridplan.Table.Mask

namespace Gridplan.Table

def trace (t : Table) (kind : Kind) (params : List (String × Expr)) : Recording Plan := do
  Plan.record kind params [← t.root]

/-- A condition on the rows: the given one, or that of a mask. -/
def traceFilter (t : Table) (m : Mask) (condition : Option Expr) : Recording Plan := do
  match condition <|> m.condition? with
  | some e => t.trace .filter [("predicate", e)]
  | none => throw (.plan .untraceable)

def asLabels : Datum → Datum
  | .text s => .list [.text s]
  | d => d

def sortKeys (columns ascending : Datum) : Outcome Datum := do
  let ls ← (asLabels columns).items
  let ds ← match ascending with
    | .bool b => .ok (ls.map fun _ ↦ .bool b)
    | d => d.items
  return .list ((ls.zip ds).map fun (l, d) ↦ .tuple [l, .text (direction d.truthy).name])

def traceSort (t : Table) (columns ascending : Datum) : Recording Plan := do
  t.trace .sort [("keys", .raw (← sortKeys columns ascending))]

/-- A node above the plans of two tables; an untracked right one counts as a source. -/
def tracePair (t right : Table) (id : String) (kind : Kind) (params : List (String × Expr)) :
    Recording Plan := do
  let q ← right.rootOr id
  Plan.record kind params [← t.root, q]

end Gridplan.Table
