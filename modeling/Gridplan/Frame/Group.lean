import Gridplan.Frame.Summary

namespace Gridplan

structure Group where
  key : List Datum
  rows : List Nat

namespace Group

def insert (key : List Datum) (row : Nat) : List Group → List Group
  | [] => [⟨key, [row]⟩]
  | g :: gs => if Datum.sameList g.key key then ⟨g.key, g.rows ++ [row]⟩ :: gs
    else g :: insert key row gs

/-- The groups of some rows in order of first appearance. A row with a missing key is in none. -/
def ofRows (keys : List (List Datum)) (rows : List Nat) : List Group :=
  rows.foldl (fun gs i ↦
    let key := (keys[i]?).getD []
    if key.any Datum.isMissing then gs else insert key i gs) []

def sorted (gs : List Group) : List Group :=
  gs.mergeSort fun a b ↦ Frame.keyOrder (a.key.map fun _ ↦ .asc) a.key b.key != .gt

end Group

namespace Frame

def groups (keys : List Label) (sort : Bool) (f : Frame) : Outcome (List Group) := do
  if keys.isEmpty then .error .value
  else
    let columns ← keys.mapM f.column
    let gs := Group.ofRows (keyRows f.height columns) (List.range f.height)
    return if sort then Group.sorted gs else gs

def keyColumns (keys : List Label) (gs : List Group) (f : Frame) : Outcome (List (Label × Column)) :=
  keys.mapM fun l ↦ do
    let c ← f.column l
    return (l, c.pick (gs.filterMap (·.rows.head?)))

def repeats : List Label → Bool
  | [] => false
  | l :: ls => l.isIn ls || repeats ls

/-- Columns put in front of others, whose labels must all be new. -/
def withKeys (keys columns : List (Label × Column)) (n : Nat) : Outcome Frame :=
  if repeats (keys.map (·.1)) || keys.any fun k ↦ columns.any (·.1.same k.1) then .error .value
  else .ok ⟨keys ++ columns, numbered n⟩

def distinctOutputs {α : Type} (xs : List (Label × α)) : List (Label × α) :=
  xs.foldl (fun acc x ↦
    if acc.any (·.1.same x.1) then acc.map fun y ↦ if y.1.same x.1 then (y.1, x.2) else y
    else acc ++ [x]) []

def groupBy (keys : List Label) (sort : Bool) (outputs : List (Label × Label × String)) (f : Frame) :
    Outcome Frame := do
  let gs ← f.groups keys sort
  let outputs := distinctOutputs outputs
  let sources ← outputs.mapM fun (_, l, _) ↦ f.column l
  let columns ← (outputs.zip sources).mapM fun ((out, _, func), c) ↦ do
    let s ← Summary.ofName func
    return (out, ← c.summarizeRows s (gs.map (·.rows)))
  withKeys (← f.keyColumns keys gs) columns gs.length

def aggregate (outputs : List (Label × Label × String)) (f : Frame) : Outcome Frame := do
  let cells ← outputs.mapM fun (out, l, func) ↦ do
    let c ← f.column l
    let s ← Summary.ofName func
    return (out, ← c.summarize s)
  return ⟨(distinctOutputs cells).map fun (l, d) ↦ (l, Column.ofList [d]), numbered 1⟩

end Frame

end Gridplan
