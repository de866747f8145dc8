import Gridplan.Frame.Group

namespace Gridplan.Frame

/-- A table of summaries for every pair of an index key and a column key. The heading of a column
is the label of what is summarised and the column key. -/
structure Crossing where
  keys : List (List Datum)
  headings : List (Label × List Datum)
  columns : List Column

def distinctKeys (keys : List (List Datum)) : List (List Datum) :=
  (Group.sorted ((Group.ofRows keys (List.range keys.length)))).map (·.key)

/-- Summaries spread out: one column for each summarised column and column key. A group without any
value is left out, and one empty cell makes room for missing cells in the whole table. -/
def spreadOut (keyCount : Nat) (gs : List Group) (summaries : List (Label × Column)) : Crossing :=
  let rows := keyRows gs.length (summaries.map (·.2))
  let filled := (gs.zip rows).zipIdx.filter fun ((_, r), _) ↦ r.any (!·.isMissing)
  let keys := distinctKeys (filled.map fun ((g, _), _) ↦ g.key.take keyCount)
  let across := distinctKeys (filled.map fun ((g, _), _) ↦ g.key.drop keyCount)
  let place (k c : List Datum) : Option Nat :=
    (filled.find? fun ((g, _), _) ↦ Datum.sameList g.key (k ++ c)).map (·.2)
  let table := across.map fun c ↦ keys.map fun k ↦ place k c
  let full := table.all (·.all Option.isSome)
  let columns := summaries.flatMap fun (l, s) ↦
    (across.zip table).map fun (c, rows) ↦ ((l, c), (if full then s else s.loosen).pickOr rows)
  let kept := columns.filter (!·.2.isBlank)
  ⟨keys, kept.map (·.1), kept.map (·.2)⟩

def labelText (l : Label) : Label := .text l.display

def indexColumns (index : List Label) (keys : List (List Datum)) (f : Frame) :
    Outcome (List (Label × Column)) :=
  index.zipIdx.mapM fun (l, i) ↦ do
    let c ← f.column l
    let cells := keys.map fun k ↦ (k[i]?).getD .null
    return (l, match c with
      | .mixed _ => .mixed cells
      | _ => Column.ofList cells)

/-- The columns that a pivot works on: those it names, unless that would be all. -/
def pivotScope (named : List Label) (f : Frame) : Outcome Frame :=
  if named.length < f.columns.length then f.select named else .ok f

/-- The summaries of some columns, or of all others, for every pair of index and column keys, as a
table with one row for each index key. -/
def crossing (index columns : List Label) (values : Option (List Label)) (func : Option String)
    (f : Frame) : Outcome Crossing := do
  let _ ← (values.getD []).mapM fun l ↦
    (f.column? l).elim (.error .label) (fun c ↦ Except.ok c : _ → Outcome Column)
  let scope ← match values with
    | some vs => f.pivotScope ((index ++ columns ++ vs).filter (·.isIn f.labels))
    | none => .ok f
  let gs ← scope.groups (index ++ columns) true
  let s ← match func with
    | some name => Summary.ofName name
    | none => .error .kind
  let sources := scope.columns.filter fun (l, _) ↦ !l.isIn (index ++ columns)
  if sources.isEmpty then
    return ⟨distinctKeys (gs.map fun g ↦ g.key.take index.length), [], []⟩
  else
    let summaries ← (sources.mergeSort fun a b ↦ a.1.cellOrder b.1 != .gt).mapM fun (l, c) ↦ do
      return (l, ← c.summarizeRows s (gs.map (·.rows)))
    return spreadOut index.length gs summaries

def pivot (index : List Label) (columns values : Label) (func : Option String) (f : Frame) :
    Outcome Frame := do
  let t ← crossing index [columns] (some [values]) func f
  let labels := t.headings.map fun (_, c) ↦ labelText ((c.head?).getD .null)
  withKeys (← indexColumns index t.keys f) (labels.zip t.columns) t.keys.length

def joinedLabel (parts : List Datum) : Label :=
  .text ("_".intercalate ((parts.filter Datum.truthy).map Datum.display))

def Crossing.arrange (keys : List (List Datum)) (t : Crossing) : List Column :=
  let rows := keys.map fun k ↦ t.keys.findIdx? (Datum.sameList · k)
  t.columns.map (·.pickOr rows)

/-- A pivot by one summary for each function, side by side. A heading is named by its parts: the
function when there are several, the summarised column when these are given as a list, and the
column key; one part alone keeps its value. -/
def pivotTable (index columns : List Label) (values : Option (List Label)) (nameValues : Bool)
    (funcs : List (Option String)) (nameFuncs : Bool) (f : Frame) : Outcome Frame := do
  if funcs.isEmpty then .error .value
  let tables ← funcs.mapM fun func ↦ do return (func, ← f.crossing index columns values func)
  let keys := tables.foldl (fun ks (_, t) ↦ ks ++ t.keys.filter fun k ↦ !ks.any (Datum.sameList k)) []
  let named := tables.flatMap fun (func, t) ↦
    let front := if nameFuncs then [Datum.text (func.getD "")] else []
    let labels := t.headings.map fun (l, c) ↦
      match front ++ (if nameValues then [l] else []) ++ c with
      | [d] => d
      | parts => joinedLabel parts
    labels.zip (t.arrange keys)
  withKeys (← indexColumns index keys f) named keys.length

def melt (idVars : List Label) (valueVars : Option (List Label)) (varName valueName : Label)
    (f : Frame) : Outcome Frame := do
  if valueName.isIn f.labels then .error .value
  else
    let wanted := idVars ++ valueVars.getD []
    if !wanted.all (·.isIn f.labels) then .error .label
    else
      let chosen := match valueVars with
        | some vs => (idVars ++ vs).foldl (fun seen l ↦ if l.isIn seen then seen else seen ++ [l]) []
        | none => f.labels
      let scope ← f.select chosen
      let values := scope.columns.filter fun (l, _) ↦ !l.isIn idVars
      let times := scope.columns.length - idVars.length
      let ids ← idVars.mapM fun l ↦ do
        let c ← f.column l
        return (l, Column.pick (List.replicate times (List.range f.height)).flatten c)
      let names := Column.mixed (values.flatMap fun (l, _) ↦ List.replicate f.height l)
      let cells := Column.concat (values.map (·.2))
      return ⟨ids ++ [(varName, names), (valueName, cells)], numbered (times * f.height)⟩

end Gridplan.Frame
