import Gridplan.Plan.Codec
import Gridplan.Plan.Same

namespace Gridplan.Optimize

abbrev Rule := Operator → List Plan → Outcome (Option Plan)

def fill : List (Option Plan) → List Plan → List Plan
  | some new :: news, _ :: olds => new :: fill news olds
  | none :: news, old :: olds => old :: fill news olds
  | _, _ => []

def unchanged : List (Option Plan) → List Plan → Outcome Bool
  | some new :: news, old :: olds => do
    if ← new.same old then unchanged news olds else return false
  | none :: news, _ :: olds => unchanged news olds
  | _, _ => .ok true

mutual

/-- Tries a rule at every node, from the leaves to the root. A node whose inputs count as equal to
the old ones stays as it is; one whose inputs differ is stored and read back with the new ones. -/
def step (rule : Rule) : Plan → Outcome (Option Plan)
  | .node mark op inputs => do
    let news ← stepList rule inputs
    let filled := fill news inputs
    match ← rule op filled with
    | some p => return some p
    | none =>
      if ← unchanged news inputs then return none
      else return some (← (Plan.node mark op inputs).withInputs filled)

def stepList (rule : Rule) : List Plan → Outcome (List (Option Plan))
  | [] => .ok []
  | p :: ps => do
    let new ← step rule p
    return new :: (← stepList rule ps)

end

def pass (rule : Rule) (p : Plan) : Outcome Plan := do return (← step rule p).getD p

end Gridplan.Optimize
