import Gridplan.Plan.Build
import Gridplan.Frame.Stack
import Gridplan.Frame.Rows

namespace Gridplan

/-- Outcomes that make new nodes, which are numbered as they are made. -/
abbrev Recording := StateT Nat Outcome

def Plan.record (kind : Kind) (params : List (String × Expr)) (inputs : List Plan) :
    Recording Plan := do
  let p ← (Plan.build kind { params, inputs } : Outcome Plan)
  let mark ← modifyGet fun n ↦ (n, n + 1)
  return .node (some mark) p.op p.inputs

def unnamedSource : String := "<dataframe>"

def Plan.recordSource (id : String) (schema : Datum) : Recording Plan :=
  record .source [("source_id", .raw (.text id)), ("schema", .raw schema)] []

/-- A frame, with the plan that made it if the table is tracked. -/
structure Table where
  frame : Frame
  plan : Option Plan := none
deriving Inhabited

namespace Table

def root (t : Table) : Outcome Plan :=
  match t.plan with
  | some p => .ok p
  | none => .error .member

def ofFrame (f : Frame) (id : String) : Recording Table := do
  let schema : Datum := if f.labels.isEmpty then .null else .list f.labels
  return ⟨f, some (← Plan.recordSource id schema)⟩

/-- A table that is tracked: one that is not becomes a source. -/
def tracked (t : Table) (id : String) : Recording Table :=
  match t.plan with
  | some _ => return t
  | none => ofFrame t.frame id

def rootOr (t : Table) (id : String) : Recording Plan :=
  match t.plan with
  | some p => return p
  | none => Plan.recordSource id (.list t.frame.labels)

def follow (t : Table) (f : Frame) (kind : Kind) (params : List (String × Expr)) :
    Recording Table :=
  match t.plan with
  | some p => do return ⟨f, some (← Plan.record kind params [p])⟩
  | none => return ⟨f, none⟩

def onFrame (t : Table) (step : Frame → Outcome Frame) : Outcome Table := do
  return { t with frame := ← step t.frame }

/-- The columns that a list names. A list of truth values chooses rows instead. -/
def chosen (labels : List Label) (f : Frame) : Outcome Frame :=
  match labels.mapM Column.bool? with
  | some (b :: bs) =>
    if bs.length + 1 = f.height then .ok (f.keep (b :: bs)) else .error .value
  | _ => f.select labels

def select (columns : List Label) (t : Table) : Recording Table := do
  t.follow (← chosen columns t.frame) .select [("columns", .raw (.list columns))]

def directions (count : Nat) : Datum → Outcome (List Bool)
  | .bool b => .ok (List.replicate count b)
  | .list ds => do
    let bs ← ds.mapM fun d ↦
      match d with
      | .bool b => .ok b
      | .int n => .ok (n != 0)
      | _ => .error .value
    if bs.length = count then .ok bs else .error .value
  | .int _ => .error .kind
  | _ => .error .value

def direction (ascending : Bool) : Direction := if ascending then .asc else .desc

def sort (columns : List Label) (ascending : Datum) (t : Table) : Recording Table := do
  let ds ← directions columns.length ascending
  let keys := columns.zip (ds.map direction)
  let f ← t.frame.sortBy keys
  t.follow f .sort [("keys", .raw (.list (keys.map fun (l, d) ↦ .tuple [l, .text d.name])))]

/-- The first or last rows. A negative number counts the rows that are left out. -/
def limit (side : Side) (n : Int) (t : Table) : Recording Table := do
  let count := (if n < 0 then t.frame.height + n else n).toNat
  let f := match side with
    | .head => t.frame.head count
    | .tail => t.frame.tail count
  t.follow f .limit [("count", .raw (.int n)), ("end", .raw (.text side.name))]

def drop (columns : List Label) (t : Table) : Outcome Table :=
  t.onFrame fun f ↦
    if columns.all (·.isIn f.labels) then
      .ok { f with columns := f.columns.filter fun (l, _) ↦ !l.isIn columns }
    else .error .label

def rename (names : List (Label × Label)) (t : Table) : Outcome Table :=
  t.onFrame fun f ↦
    .ok { f with columns := f.columns.map fun (l, c) ↦
      (((names.reverse.find? (·.1.same l)).map (·.2)).getD l, c) }

def single (l : Label) (t : Table) : Outcome Table :=
  t.onFrame fun f ↦
    match f.columns.filter (·.1.same l) with
    | [] => .error .label
    | [c] => .ok ⟨[c], f.index⟩
    | _ => .error .member

end Table

end Gridplan
