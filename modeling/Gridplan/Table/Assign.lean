import Gridplan.Table.Basic
import Gridplan.Lambda.Evaluate

namespace Gridplan

inductive Assigned where
  | datum (d : Datum)
  | lambda (source : String)
  | defined (source : String)
  | rowCount

namespace Assigned

def term (source : String) : Outcome Lambda.Term :=
  match Lambda.Term.parse? source with
  | some t => .ok t
  | none => .error .grammar

def check : Assigned → Outcome Unit
  | .lambda s | .defined s => do
    let _ ← term s
    return ()
  | _ => .ok ()

def cells (f : Frame) : Assigned → Outcome Column
  | .datum d => f.spread (.single d)
  | .lambda s => do (← (← term s).applyTo (.frame f)).cells f
  | .defined s => do (← (← term s).evaluate [("d", .frame f)]).cells f
  | .rowCount => f.spread (.single (.int f.height))

def recorded (name : String) : Assigned → String
  | .datum d => d.display
  | .lambda s | .defined s =>
    Lambda.recorded ((Lambda.Term.parse? s).bind (Lambda.Term.bodyFor? name))
  | .rowCount => Lambda.unknownFunction

end Assigned

namespace Table

def withColumn (p : Plan) (name : String) (a : Assigned) : Recording Plan :=
  Plan.record .withColumn
    [("column", .raw (.text name)), ("expression", .raw (.text (a.recorded name)))] [p]

def assign (columns : List (String × Assigned)) (t : Table) : Recording Table := do
  let _ ← (columns.mapM fun (_, a) ↦ a.check : Outcome (List Unit))
  let f ← (columns.foldlM (fun f (name, a) ↦ do return f.setColumn (.text name) (← a.cells f)) t.frame :
    Outcome Frame)
  match t.plan with
  | some p => do
    return ⟨f, some (← columns.foldlM (fun p (name, a) ↦ withColumn p name a) p)⟩
  | none => return ⟨f, none⟩

end Table

end Gridplan
