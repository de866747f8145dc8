import Gridplan.Cells.Basic
import Gridplan.Frame.Group
import Gridplan.Text.Case
import Gridplan.Text.Identifier

namespace Gridplan.Cells

namespace Query

/-- Whether a character is a small letter in either case; the long s is an s. -/
def isLetter (small c : Char) : Bool := c.toLower == small || (small == 's' && c == 'ſ')

def after? : List Char → List Char → Option (List Char)
  | [], cs => some cs
  | w :: ws, c :: cs => if isLetter w c then after? ws cs else none
  | _ :: _, [] => none

def afterBlanks? (cs : List Char) : Option (List Char) :=
  match cs with
  | c :: cs => if Text.isBlank c then some (cs.dropWhile Text.isBlank) else none
  | [] => none

def afterWord? (word : String) (cs : List Char) : Option (List Char) := do
  after? word.toList (← afterBlanks? cs)

def endsGrouping (cs : List Char) : Bool :=
  cs.isEmpty ||
    match (afterWord? "label" cs).bind afterBlanks? with
    | some labels => !labels.isEmpty && !labels.contains '\n'
    | none => false

def grouping? : List Char → Option (List Char)
  | [] => none
  | c :: cs =>
    if c == '\n' then none
    else if endsGrouping cs then some [c]
    else (grouping? cs).map (c :: ·)

def selection? : List Char → Option (List Char × List Char)
  | [] => none
  | c :: cs =>
    if c == '\n' then none
    else
      match ((afterWord? "group" cs).bind (afterWord? "by")).bind afterBlanks? with
      | none => (selection? cs).map fun (s, g) ↦ (c :: s, g)
      | some rest =>
        match grouping? rest with
        | some g => some ([c], g)
        | none => (selection? cs).map fun (s, g) ↦ (c :: s, g)

def parts (cs : List Char) : List String :=
  ((Text.trim (String.ofList cs)).splitOn ",").map Text.trim

def columnDigits? (cs : List Char) : Option (List Char × List Char) := do
  let cs ← after? "col".toList cs
  let ds := cs.takeWhile fun c ↦ (Text.digitValue? c).isSome
  if ds.isEmpty then none else some (ds, cs.drop ds.length)

def summary? (part : String) : Option (String × String) := do
  let cs := part.toList
  let word := cs.takeWhile Text.isIdentifierRest
  match word, cs.drop word.length with
  | _ :: _, '(' :: rest =>
    match columnDigits? rest with
    | some (ds, ')' :: _) => some (Text.upper (String.ofList word), "Col" ++ String.ofList ds)
    | _ => none
  | _, _ => none

def summaryName (func : String) : String :=
  if func == "AVG" then "mean" else func.map Char.toLower

end Query

structure Query where
  keys : List String
  summaries : List (String × String)

namespace Query

/-- Reads a query. A column that is summed up twice takes the later function. -/
def parse? (text : String) : Option Query := do
  let (s, g) ← selection? (← (after? "select".toList (Text.trimList text.toList)).bind afterBlanks?)
  let summaries := ((parts s).filterMap summary?).map fun (func, c) ↦ (Datum.text c, func)
  return ⟨parts g, (Frame.distinctOutputs summaries).map fun (c, func) ↦ (c.display, func)⟩

/-- The number that a cell counts as. Text must be plain; an empty text is a missing number. -/
def number? : Datum → Option Datum
  | .text s =>
    if s == "" then some .null
    else if s.toList.all fun c ↦ c.toNat < 128 && c != '_' then
      match Text.readInt s, Text.readFloat s with
      | some n, _ => some (.int n)
      | none, some x => if x.isNaN then none else some (.float x)
      | none, none => none
    else none
  | .list _ | .tuple _ | .record _ => none
  | d => some d

def numberColumn (xs : List Datum) : Column :=
  if xs.all (·.whole?.isSome) then
    let ns := xs.filterMap Datum.whole?
    if ns.all Column.fits then .ints ns
    else if ns.all fun n ↦ 0 ≤ n && n < Int.pow 2 64 then .mixed (ns.map .int)
    else .floats (ns.map Float.ofInt)
  else .floats (xs.map fun d ↦ ((d.number?.bind Number.toFloat?).getD Column.nan))

def toNumbers : Column → Column
  | .mixed xs => ((xs.mapM number?).map numberColumn).getD (.mixed xs)
  | c => c

def frame (width : Nat) (body : List Datum) : Outcome Frame := do
  let rs ← body.mapM Datum.items
  if rs.foldl (fun n r ↦ max n r.length) 0 = width then
    let columns := (List.range width).map fun i ↦
      (Datum.text s!"Col{i + 1}", toNumbers (Column.ofList (rs.map fun r ↦ (r[i]?).getD .null)))
    return ⟨columns, Frame.numbered rs.length⟩
  else .error .value

def heading (header : List Datum) (name : String) : Datum :=
  match columnDigits? name.toList with
  | none => .text name
  | some (ds, _) =>
    match Text.readInt (String.ofList ds) with
    | some n => ((Datum.place? header.length (n - 1)).bind (header[·]?)).getD (.text name)
    | none => .text name

def outputCell (d : Datum) : Outcome Datum :=
  if d.isMissing then .ok (.text "")
  else
    match d with
    | .float x => if x.isInf then .error .overflow else .ok d
    | d => .ok d

/-- The rows of a frame. Integers beside floating-point numbers alone are floating-point too. -/
def outputRows (f : Frame) : Outcome (List Datum) := do
  let kinds := f.columns.map (·.2.kind)
  let columns := f.columns.map (·.2)
  let columns := if kinds.all fun k ↦ k = .ints || k = .floats then
      if kinds.contains .floats then columns.map (Column.convert .floats) else columns
    else columns
  (Frame.keyRows f.height columns).mapM fun r ↦ do return .list (← r.mapM outputCell)

def run (q : Query) (header : List Datum) (f : Frame) : Outcome Datum := do
  let outputs := q.summaries.map fun (c, func) ↦ (Datum.text c, Datum.text c, summaryName func)
  let grouped ← f.groupBy (q.keys.map .text) true outputs
  let names := q.keys ++ q.summaries.map fun (c, func) ↦ s!"{func.map Char.toLower}_{c}"
  return .list (.list (names.map (heading header)) :: (← outputRows grouped))

end Query

/-- The answer to a query text. A text that is no query, or sums nothing up, leaves the array as it
is. -/
def query (data text : Datum) : Outcome Datum :=
  match rows data with
  | [] => .ok blank
  | [header] => .ok (.list [header])
  | header :: body => do
    let cells ← header.items
    let f ← Query.frame cells.length body
    match Query.parse? text.display with
    | none => return .list (header :: body)
    | some q => if q.summaries.isEmpty then return .list (header :: body) else q.run cells f

end Gridplan.Cells
