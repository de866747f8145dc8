import Gridplan.Plan.Explain

namespace Gridplan

/-- Nodes with their descriptions and the places of their inputs. Nodes may be reached from
themselves. -/
structure Graph where
  nodes : Array (String × List Nat)

namespace Graph

structure Canvas where
  lines : List String
  seen : List Nat

def connector (last : Bool) : String := if last then "└── " else "├── "

def extension (last : Bool) : String := if last then "    " else "│   "

/-- Draws the inputs of a node from first to last; only the last one is told so. -/
def drawInputs (visit : Bool → Nat → Canvas → Canvas) : List Nat → Canvas → Canvas
  | [], c => c
  | [i], c => visit true i c
  | i :: rest, c => drawInputs visit rest (visit false i c)

/-- Draws a node and all below it. The root has no branch; the first argument bounds the chain of
nodes above. -/
def drawNode (g : Graph) : Nat → Option String → Bool → Nat → Canvas → Canvas
  | 0, indent, last, i, c =>
    if c.seen.contains i then pointTo indent last c else c
  | depth + 1, indent, last, i, c =>
    if c.seen.contains i then pointTo indent last c
    else
      match g.nodes[i]? with
      | none => c
      | some (text, inputs) =>
        let line := match indent with
          | none => text
          | some s => s ++ connector last ++ text
        let below := match indent with
          | none => ""
          | some s => s ++ extension last
        drawInputs (drawNode g depth (some below)) inputs ⟨c.lines ++ [line], i :: c.seen⟩
where
  pointTo (indent : Option String) (last : Bool) (c : Canvas) : Canvas :=
    { c with lines := c.lines ++ [indent.getD "" ++ connector last ++ "[already shown]"] }

def draw (g : Graph) (root : Nat) : String :=
  "\n".intercalate (drawNode g g.nodes.size none true root ⟨[], []⟩).lines

end Graph

def Operator.caption (op : Operator) : String :=
  let ps := op.params
  match op.kind with
  | .select => "Select(columns=" ++ ps.shown "columns" ++ ")"
  | .sort => "Sort(keys=" ++ ps.shown "keys" ++ ")"
  | .pivot =>
    let first := match ps.get "aggfunc" with
      | .raw (.text "first") => true
      | _ => false
    "Pivot(index=" ++ ps.shown "index" ++ ", columns='" ++ ps.shown "columns" ++ "', values='" ++
      ps.shown "values" ++ "'" ++
      (if first then "" else ", aggfunc='" ++ ps.shown "aggfunc" ++ "'") ++ ")"
  | .window =>
    "Window(function='" ++ ps.shown "function" ++ "', output='" ++ ps.shown "output_column" ++ "'" ++
      ps.shownIf "partition_by" "partition_by=" "" Expr.truthy ++
      ps.shownIf "order_by" "order_by=" "" Expr.truthy ++
      ps.shownIf "input_column" "input='" "'" Expr.truthy ++ ")"
  | _ => op.explain

namespace Plan

structure Numbering where
  nodes : Array (String × List Nat) := #[]
  shared : List (Nat × Nat) := []

mutual

/-- Numbers a plan, shared nodes once; inputs come before the nodes that use them. -/
def number : Plan → Numbering → Nat × Numbering
  | .node mark op inputs, n =>
    match mark.bind fun m ↦ n.shared.lookup m with
    | some i => (i, n)
    | none =>
      let (is, n) := numberList inputs n
      let i := n.nodes.size
      (i, ⟨n.nodes.push (op.caption, is), match mark with
        | some m => (m, i) :: n.shared
        | none => n.shared⟩)

def numberList : List Plan → Numbering → List Nat × Numbering
  | [], n => ([], n)
  | p :: ps, n =>
    let (i, n) := number p n
    let (is, n) := numberList ps n
    (i :: is, n)

end

def visualize (p : Plan) : String :=
  let (root, n) := number p {}
  (Graph.mk n.nodes).draw root

end Plan

end Gridplan
