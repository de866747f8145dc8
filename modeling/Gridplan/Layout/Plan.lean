import Gridplan.Layout.Rows
import Gridplan.Layout.Join
import Gridplan.Layout.Group
import Gridplan.Layout.Reshape
import Gridplan.Layout.Window
import Gridplan.Optimize.Rules

namespace Gridplan.Layout

open Formula

abbrev Sources := List (String × Datum)

/-- What is laid out so far: the edits, the number of nodes, the blocks of shared nodes, and the
blocks of all nodes in the order in which they were finished. -/
structure Progress where
  edits : List Step := []
  counter : Nat := 0
  shared : List (Nat × Block) := []
  blocks : List Block := []

def itemAt (i : Nat) (d : Datum) : Outcome Datum :=
  match d with
  | .record _ => .error .label
  | d => do
    match (← d.items)[i]? with
    | some x => return x
    | none => .error .position

def hashable : Nat → Datum → Bool
  | 0, _ => false
  | _, .list _ => false
  | _, .record _ => false
  | depth + 1, .tuple xs => xs.all (hashable depth)
  | _, _ => true

def distinctCount (xs : List Datum) : Nat :=
  (xs.foldl (fun seen x ↦ if x.isIn seen then seen else x :: seen) []).length

def leftmostSource : Plan → Option (String × List String)
  | .node _ (.source id schema _) _ => some (id, schema.getD [])
  | .node _ _ inputs => leftmostOf inputs
where
  leftmostOf : List Plan → Option (String × List String)
    | [] => none
    | p :: _ => leftmostSource p

/-- The number of different values of a column in the data of the leftmost source, when it has data
and such a column. -/
def knownValues (sources : Sources) (input : Option Plan) (column : String) : Outcome (Option Nat) :=
  match input.bind leftmostSource with
  | none => .ok none
  | some (id, schema) =>
    let data := (sources.lookup id).getD (.list [])
    if data.truthy then
      match schema.idxOf? column with
      | none => .ok none
      | some i => do
        let cells ← (← data.items).mapM (itemAt i)
        if cells.all fun c ↦ hashable c.depth c then return some (distinctCount cells)
        else .error .kind
    else .ok none

def only (kind : Kind) : List Block → Outcome Block
  | [b] => .ok b
  | _ => .error (.invalid (.inputCount kind.title false))

def both (kind : Kind) : List Block → Outcome (Block × Block)
  | [l, r] => .ok (l, r)
  | _ => .error (.invalid (.inputCount kind.title true))

/-- The sheets of a node with a parameter of an unexpected kind. A number of rows may be a fraction or
a truth value. -/
def placeLoose (counter : Nat) (kind : Kind) (ps : Params) (blocks : List Block) : Outcome Placement :=
  match kind with
  | .limit =>
    match (ps.data? "count").bind Amount.ofDatum?, (ps.text? "end").bind Side.ofName? with
    | some count, some side => do limit counter count side (← only .limit blocks)
    | _, _ => .error .kind
  | .sort =>
    match (ps.data? "keys").bind SortKey.listOf?, ps.option? Amount.ofDatum? "limit" with
    | some keys, some cap => do sort counter keys cap (ps.expr? "predicate") (← only .sort blocks)
    | _, _ => .error .kind
  | .groupBy =>
    match ps.texts? "keys", (ps.data? "aggregations").bind Aggregation.listOf? with
    | some keys, some aggs => do groupBy counter keys aggs (← only .groupBy blocks)
    | _, _ => .error .kind
  | _ => .error .kind

def placeNode (sources : Sources) (counter : Nat) (op : Operator) (inputs : List Plan)
    (blocks : List Block) : Outcome Placement :=
  match op with
  | .source id schema _ => source counter schema ((sources.lookup id).getD (.list []))
  | .select columns predicate => do select counter columns predicate (← only .select blocks)
  | .filter predicate => do filter counter predicate (← only .filter blocks)
  | .join leftOn rightOn kind _ => do
    let (l, r) ← both .join blocks
    join counter kind ⟨l, r, leftOn, rightOn⟩
  | .groupBy keys aggs _ _ => do groupBy counter keys aggs (← only .groupBy blocks)
  | .aggregate aggs => do aggregate counter aggs (← only .aggregate blocks)
  | .sort keys cap predicate => do sort counter keys (cap.map fun n ↦ .ofNat n.toNat) predicate (← only .sort blocks)
  | .limit count side => do limit counter (.ofNat count.toNat) side (← only .limit blocks)
  | .withColumn column expression => do
    withColumn counter column expression (← only .withColumn blocks)
  | .union => do
    let (l, r) ← both .union blocks
    union counter l r
  | .pivot index columns values aggfunc => do
    let b ← only .pivot blocks
    let cols ← knownValues sources inputs.head? columns
    let rows ← knownValues sources inputs.head? (index.headD "")
    pivot counter index columns values aggfunc cols rows b
  | .melt idVars valueVars varName valueName => do
    melt counter idVars valueVars varName valueName (← only .melt blocks)
  | .window func input output partitionBy orderBy frame => do
    window counter func input output partitionBy orderBy frame (← only .window blocks)
  | .bare => .error (.unsupported (.operation Kind.bare.title))
  | .loose kind ps => placeLoose counter kind ps blocks

def Progress.find (s : Progress) (mark : Option Nat) : Option Block :=
  mark.bind fun m ↦ s.shared.lookup m

def Progress.add (s : Progress) (mark : Option Nat) (p : Placement) : Progress where
  edits := s.edits ++ p.edits
  counter := s.counter + 1
  shared := match mark with
    | some m => (m, p.block) :: s.shared
    | none => s.shared
  blocks := s.blocks ++ [p.block]

mutual

def placePlan (sources : Sources) : Plan → Progress → Outcome (Block × Progress)
  | .node mark op inputs, s =>
    match s.find mark with
    | some b => .ok (b, s)
    | none => do
      let (blocks, s) ← placeInputs sources inputs s
      let p ← placeNode sources s.counter op inputs blocks
      return (p.block, s.add mark p)

def placeInputs (sources : Sources) : List Plan → Progress → Outcome (List Block × Progress)
  | [], s => .ok ([], s)
  | p :: ps, s => do
    let (b, s) ← placePlan sources p s
    let (bs, s) ← placeInputs sources ps s
    return (b :: bs, s)

end

/-- Lays out a plan. Inputs come before the nodes that use them, and a shared node is laid out once. -/
def layOut (p : Plan) (sources : Sources) (optimized : Bool) : Outcome Progress := do
  let p ← if optimized then p.optimize else pure p
  return (← placePlan sources p {}).2

def Progress.written (s : Progress) : List (Edit String) := s.edits.map (Edit.map Term.formula)

end Gridplan.Layout
