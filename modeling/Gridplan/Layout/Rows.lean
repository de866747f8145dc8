import Gridplan.Layout.Basic
import Gridplan.Text.Replace

namespace Gridplan.Layout

open Formula

def rowCount : Datum → Nat
  | .list xs => xs.length
  | .tuple xs => xs.length
  | .text s => s.length
  | .record fs => fs.length
  | _ => 0

/-- A source is the only node whose rows are written as values. -/
def source (counter : Nat) (schema : Option (List String)) (data : Datum) : Outcome Placement :=
  match schema with
  | none | some [] => .error (.layout .noSchema)
  | some names =>
    let sheet := sheetName .source counter
    let rows := rowCount data
    place sheet names rows (opening sheet (rows + 1 : Nat) names ++ [.values sheet 1 0 data])

def projected (b : Block) (columns : List String) : Outcome (List Term) :=
  columns.mapM fun n ↦
    if b.schema.contains n then b.column n else .error (.layout (.noColumn n b.schema))

/-- A projection keeps the rows whose first cell is not empty. -/
def select (counter : Nat) (columns : List String) (predicate : Option Expr) (b : Block) :
    Outcome Placement := do
  let sheet := sheetName .select counter
  let rows := b.depth.succ
  let refs ← projected b columns
  let filled := notBlank (← firstColumn b)
  let conditions ← extra b predicate
  place sheet columns rows (opening sheet rows columns ++
    [put sheet 1 0 (.call "FILTER" [sideBySide refs, allOf filled conditions])])

def filter (counter : Nat) (predicate : Expr) (b : Block) : Outcome Placement := do
  let sheet := sheetName .filter counter
  let condition ← b.condition predicate
  place sheet b.schema b.depth (opening sheet b.depth.succ b.schema ++
    [put sheet 1 0 (.call "FILTER" [b.body, condition])])

def sortArgs (b : Block) (k : SortKey) : Outcome (List Term) := do
  let i ← position b.schema k.column
  return [.int (i + 1), .text (if k.direction = .asc then "TRUE" else "FALSE")]

/-- A cap on rows that has an effect: one of zero has none. -/
def effective (cap : Option Amount) : Option Amount :=
  cap.filter fun a ↦ a.rows.toNumber.toDatum.truthy

def sort (counter : Nat) (keys : List SortKey) (cap : Option Amount) (predicate : Option Expr)
    (b : Block) : Outcome Placement := do
  let sheet := sheetName .sort counter
  let rows := b.depth.succ
  let args ← keys.mapM (sortArgs b)
  let filled := notBlank (← firstColumn b)
  let conditions ← extra b predicate
  let sorted := Term.call "SORT" (.call "FILTER" [b.body, allOf filled conditions] :: args.flatten)
  match effective cap with
  | none => place sheet b.schema rows (opening sheet rows b.schema ++ [put sheet 1 0 sorted])
  | some n =>
    let rows := n.rows.succ.least rows
    let capped := Term.call "ARRAY_CONSTRAIN" [sorted, n.shown, .int b.schema.length]
    place sheet b.schema (n.rows.least rows) (opening sheet rows b.schema ++ [put sheet 1 0 capped])

def limited (count : Amount) (side : Side) (b : Block) : Term :=
  match side with
  | .head => .call "ARRAY_CONSTRAIN" [b.body, count.shown, .int b.schema.length]
  | .tail =>
    .call "OFFSET" [b.body, .binary " - " (.call "ROWS" [b.body]) count.shown, .int 0, count.shown,
      .int b.schema.length]

def limit (counter : Nat) (count : Amount) (side : Side) (b : Block) : Outcome Placement :=
  let sheet := sheetName .limit counter
  let rows := (count.rows.least b.depth).succ
  place sheet b.schema rows (opening sheet rows b.schema ++ [put sheet 1 0 (limited count side b)])

/-- The schema with a column at its end unless it has it already. -/
def withName (schema : List String) (name : String) : List String :=
  if schema.contains name then schema else schema ++ [name]

/-- One column name in a text replaced by its reference, where blanks or parentheses set it off or
where the text begins with it. -/
def substitute (name ref text : String) : String :=
  if Text.holds text name then
    let t := Text.replace text (" " ++ name ++ " ") (" " ++ ref ++ " ")
    let t := Text.replace t ("(" ++ name ++ " ") ("(" ++ ref ++ " ")
    let t := Text.replace t (" " ++ name ++ ")") (" " ++ ref ++ ")")
    let t := Text.replace t ("(" ++ name ++ ")") ("(" ++ ref ++ ")")
    let t := leading (name ++ " ") t
    leading name t
  else text
where
  leading (start t : String) : String :=
    if t.startsWith start then ref ++ String.ofList (t.toList.drop name.length) else t

def substituteAll (b : Block) (text : String) : String :=
  b.schema.zipIdx.foldl (fun t (n, i) ↦ substitute n (b.columnAt i).render t) text

def woven (b : Block) (text : String) : Term :=
  .woven (substituteAll b text) (b.schema.zipIdx.flatMap fun (_, i) ↦ (b.columnAt i).refs)

def computed (b : Block) (e : Expr) : Outcome Term :=
  match e with
  | .verbatim t => .ok (woven b t)
  | .raw d => .ok (woven b d.display)
  | e => b.expression e

def withColumn (counter : Nat) (column : String) (expression : Expr) (b : Block) :
    Outcome Placement := do
  let sheet := sheetName .withColumn counter
  let schema := withName b.schema column
  let rows := b.depth.succ
  let copies ← schema.zipIdx.filterMapM fun (n, j) ↦
    if n = column then .ok none
    else do return some (put sheet 1 j (spread (← b.column n)))
  let term ← computed b expression
  let j ← position schema column
  place sheet schema rows (opening sheet rows schema ++ copies ++ [put sheet 1 j (spread term)])

def union (counter : Nat) (l r : Block) : Outcome Placement :=
  if l.schema = r.schema then
    let sheet := sheetName .union counter
    let rows := (l.depth.add r.depth).succ
    place sheet l.schema rows (opening sheet rows l.schema ++
      [put sheet 1 0 (.stacked [l.body, r.body])])
  else .error (.unsupported (.unequalSchemas l.schema r.schema))

end Gridplan.Layout
