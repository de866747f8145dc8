import Gridplan.Layout.Basic

namespace Gridplan.Layout

open Formula

structure Sides where
  left : Block
  right : Block
  leftOn : List String
  rightOn : List String

namespace Sides

def carried (s : Sides) : List String := s.right.schema.filter fun n ↦ !s.rightOn.contains n

def schema (s : Sides) : List String := s.left.schema ++ s.carried

def leftKey (s : Sides) : Outcome Term :=
  match s.leftOn with
  | [] => .error .position
  | k :: _ => s.left.column k

def rightKey (s : Sides) : Outcome Term :=
  match s.rightOn with
  | [] => .error .position
  | k :: _ => s.right.column k

end Sides

def lookup (key search result : Term) : Term := spread (.call "XLOOKUP" [key, search, result, blank])

def leftColumns (sheet : String) (s : Sides) : Outcome (List Step) := do
  let copies := s.left.schema.zipIdx.map fun (_, j) ↦ put sheet 1 j (spread (s.left.columnAt j))
  let key ← s.leftKey
  let search ← s.rightKey
  let found ← s.carried.zipIdx.mapM fun (n, j) ↦ do
    return put sheet 1 (s.left.schema.length + j) (lookup key search (← s.right.column n))
  return copies ++ found

def leftJoin (counter : Nat) (s : Sides) : Outcome Placement := do
  let sheet := sheetName .join counter
  let rows := s.left.depth.succ
  place sheet s.schema rows (opening sheet rows s.schema ++ (← leftColumns sheet s))

def innerJoin (counter : Nat) (s : Sides) : Outcome Placement := do
  let joined ← leftJoin counter s
  let rows := s.left.depth.succ
  let helper := joined.block.sheet ++ "_filtered"
  let checks ← s.carried.mapM fun n ↦ do return Term.group (notBlank (← joined.block.column n))
  let kept := match checks with
    | [] => []
    | c :: cs => [put helper 1 0 (.call "FILTER" [joined.block.body, Term.join "+" c cs])]
  place helper s.schema rows (joined.edits ++ opening helper rows s.schema ++ kept)

def rightJoin (counter : Nat) (s : Sides) : Outcome Placement := do
  let sheet := sheetName .join counter
  let rows := s.right.depth.succ
  let key ← s.rightKey
  let search ← s.leftKey
  let found ← s.left.schema.zipIdx.mapM fun (n, j) ↦ do
    return put sheet 1 j (lookup key search (← s.left.column n))
  let copies ← s.carried.zipIdx.mapM fun (n, j) ↦ do
    return put sheet 1 (s.left.schema.length + j) (spread (← s.right.column n))
  place sheet s.schema rows (opening sheet rows s.schema ++ found ++ copies)

/-- The columns of the right side that the left one does not have, for rows without a partner. -/
def antiColumns (sheet : String) (s : Sides) : Outcome (List Step) := do
  let unmatched := Term.call "ISNA" [.call "XMATCH" [← s.rightKey, ← s.leftKey]]
  s.schema.zipIdx.filterMapM fun (n, j) ↦
    if s.left.schema.contains n then .ok none
    else do return some (put sheet 1 j (.call "FILTER" [← s.right.column n, unmatched]))

def outerJoin (counter : Nat) (s : Sides) : Outcome Placement := do
  let sheet := sheetName .join counter
  let leftRows := s.left.depth.succ
  let rightRows := s.right.depth.succ
  let leftPart := sheet ++ "_left"
  let antiPart := sheet ++ "_anti"
  let joined ← place leftPart s.schema leftRows
    (opening leftPart leftRows s.schema ++ (← leftColumns leftPart s))
  let rest ← place antiPart s.schema rightRows
    (opening antiPart rightRows s.schema ++ (← antiColumns antiPart s))
  let rows := leftRows.add rightRows
  place sheet s.schema rows (joined.edits ++ rest.edits ++ opening sheet rows s.schema ++
    [put sheet 1 0 (.stacked [joined.block.body, rest.block.body])])

def join (counter : Nat) (kind : JoinKind) (s : Sides) : Outcome Placement :=
  match kind with
  | .left => leftJoin counter s
  | .inner => innerJoin counter s
  | .right => rightJoin counter s
  | .outer => outerJoin counter s

end Gridplan.Layout
