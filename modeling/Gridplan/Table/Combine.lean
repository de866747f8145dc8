import Gridplan.Table.Basic
import Gridplan.Frame.Join

namespace Gridplan

/-- What a merge is asked for, as it is given; the keys are a label or a list of labels. -/
structure Merging where
  on : Datum := .null
  leftOn : Datum := .null
  rightOn : Datum := .null
  how : String := "inner"
  suffixes : Datum := .tuple [.text "_x", .text "_y"]

namespace Merging

def labels? : Datum → Option (List Label)
  | .null => none
  | .list ls => some ls
  | l => some [l]

/-- The keys of both sides: those given, or else all labels that both sides have. -/
def keys (m : Merging) (left right : Frame) : Outcome (List Label × List Label) :=
  match labels? m.on, labels? m.leftOn, labels? m.rightOn with
  | some ls, none, none => .ok (ls, ls)
  | none, some ls, some rs => .ok (ls, rs)
  | none, none, none =>
    match left.labels.filter (·.isIn right.labels) with
    | [] => .error .value
    | ls => .ok (ls, ls)
  | _, _, _ => .error .value

def recordedKeys (m : Merging) : Datum × Datum :=
  let orNone (d : Datum) : Datum := if d == .null then .list [] else d
  if m.on == .null then (orNone m.leftOn, orNone m.rightOn) else (m.on, m.on)

def suffixPair (m : Merging) : Outcome (Option String × Option String) := do
  let (a, b) ← m.suffixes.pair
  return (a.text?, b.text?)

def frame (m : Merging) (left right : Frame) : Outcome Frame := do
  if m.how = "cross" then
    if [m.on, m.leftOn, m.rightOn].all (· == .null) then .error (.plan .noJoinKeys) else .error .value
  let (ls, rs) ← m.keys left right
  if ls.length != rs.length then .error .value
  match JoinKind.ofName? m.how with
  | some kind => Frame.join ls rs kind (← m.suffixPair) left right
  | none => do
    let _ ← ls.mapM left.column
    let _ ← rs.mapM right.column
    .error .joinKind

end Merging

namespace Table

def merge (m : Merging) (left right : Table) : Recording Table := do
  let f ← m.frame left.frame right.frame
  match left.plan with
  | some p => do
    let q ← right.rootOr "<right_dataframe>"
    let (ls, rs) := m.recordedKeys
    return ⟨f, some (← Plan.record .join [("left_on", .raw ls), ("right_on", .raw rs),
      ("join_type", .raw (.text m.how)), ("suffixes", .raw m.suffixes)] [p, q])⟩
  | none => return ⟨f, none⟩

structure Joining where
  abreast : Bool := false
  renumbered : Bool := false

def Joining.frame (j : Joining) (fs : List Frame) : Outcome Frame := do
  if j.abreast then
    let f ← Frame.abreast fs
    return if j.renumbered then f.relabel else f
  else
    let f ← Frame.below fs
    return if j.renumbered then f.renumber else f

/-- Tables put together. Two that stand one under the other are recorded as a union; anything else is
a new source. -/
def concat (j : Joining) (ts : List Table) : Recording Table := do
  let f ← j.frame (ts.map (·.frame))
  match j.abreast, ts with
  | false, [a, b] => do
    let p ← a.rootOr unnamedSource
    let q ← b.rootOr unnamedSource
    return ⟨f, some (← Plan.record .union [] [p, q])⟩
  | _, _ => ofFrame f unnamedSource

end Table

end Gridplan
