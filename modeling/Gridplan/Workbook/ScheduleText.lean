import Gridplan.Workbook.Schedule

namespace Gridplan

def sortNames (xs : List String) : List String := xs.mergeSort fun a b ↦ !(b < a)

namespace Schedule

def count (s : Schedule String) (stage : Stage) : Nat :=
  s.batches.foldl (fun n b ↦ if b.stage = stage then b.edits.length else n) 0

def batchLines (b : Batch String) (i : Nat) : List String :=
  [toString (i + 1) ++ ". " ++ b.stage.title, "   Operations: " ++ toString b.edits.length,
    "   Target sheets: " ++ ", ".intercalate (sortNames b.targets)]

def explain (s : Schedule String) : String :=
  if s.batches.isEmpty then "Empty execution plan (no operations)"
  else
    let counts := [("Sheets", .create), ("Source data operations", .values),
      ("Formula operations", .formulas), ("Named ranges", .names)].map fun (name, stage) ↦
        name ++ ": " ++ toString (s.count stage)
    let main := match s.main with
      | none | some "" => []
      | some m => ["Main output sheet: " ++ m]
    "\n".intercalate
      (["Execution Plan Summary", String.ofList (List.replicate 50 '=')] ++ counts ++
        ["Total execution steps: " ++ toString s.batches.length] ++ main ++
        ["", "Execution Steps:", String.ofList (List.replicate 50 '-')] ++
        (s.batches.zipIdx.flatMap fun (b, i) ↦ batchLines b i))

def toDatum (s : Schedule String) : Datum :=
  .record
    [("steps", .list (s.batches.map fun b ↦ .record
      [("step_type", .text b.stage.tag), ("operations", .list (b.edits.map Edit.toDatum)),
        ("target_sheets", Datum.ofTexts b.targets)])),
      ("main_sheet", Datum.ofText? s.main)]

def need (d : Datum) (key : String) : Outcome Datum :=
  match d with
  | .record _ => Expr.need d key
  | _ => .error .kind

def names (d : Datum) : Outcome (List String) := do
  let items ← d.items
  let texts ← items.mapM fun x ↦ match x with
    | .text s => .ok s
    | _ => .error .kind
  return distinct texts

def batchOf (d : Datum) : Outcome (Batch String) := do
  let stage ← match ← need d "step_type" with
    | .text s =>
      match Stage.ofTag? s with
      | some t => .ok t
      | none => .error .value
    | _ => .error .value
  let edits ← (← (← need d "operations").items).mapM Edit.ofDatum
  return ⟨stage, edits, ← names (← need d "target_sheets")⟩

def ofDatum (d : Datum) : Outcome (Schedule String) := do
  let batches ← (← (← need d "steps").items).mapM batchOf
  let main ← match (d.field? "main_sheet").getD .null with
    | .null => .ok none
    | .text s => .ok (some s)
    | _ => .error .kind
  return ⟨batches, main⟩

def sameNames (xs ys : List String) : Bool := xs.all ys.contains && ys.all xs.contains

def sameBatch (a b : Batch String) : Bool :=
  a.stage == b.stage && Datum.sameList (a.edits.map Edit.toDatum) (b.edits.map Edit.toDatum) &&
    sameNames a.targets b.targets

def same (s t : Schedule String) : Bool :=
  s.batches.length == t.batches.length && (s.batches.zip t.batches).all (fun p ↦ sameBatch p.1 p.2) &&
    s.main == t.main

end Schedule

end Gridplan
