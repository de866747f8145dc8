import Gridplan.Frame.Column

namespace Gridplan.Frame

def allLabels (fs : List Frame) : List Label :=
  (fs.flatMap labels).foldl (fun seen l ↦ if l.isIn seen then seen else seen ++ [l]) []

def cellsOf (l : Label) (f : Frame) : Column :=
  (f.column? l).getD (.floats (List.replicate f.height Column.nan))

/-- Frames one under the other; a column that one of them does not have is missing there. -/
def below (fs : List Frame) : Outcome Frame :=
  match fs with
  | [] => .error .value
  | f :: rest =>
    let index := fs.flatMap (·.index)
    if rest.all fun g ↦ Datum.sameList f.labels g.labels then
      .ok ⟨f.labels.zipIdx.map fun (l, i) ↦
        (l, Column.concat (fs.filterMap fun g ↦ g.columns[i]?.map (·.2))), index⟩
    else if fs.all fun g ↦ g.labels.length = (allLabels [g]).length then
      .ok ⟨(allLabels fs).map fun l ↦ (l, Column.concat (fs.map (cellsOf l))), index⟩
    else .error .unaligned

def allNames (fs : List Frame) : List Int :=
  (fs.flatMap (·.index)).foldl (fun seen n ↦ if seen.contains n then seen else seen ++ [n]) []

/-- Frames side by side. Rows of one name are one row; a frame without it has missing cells there. -/
def abreast (fs : List Frame) : Outcome Frame :=
  match fs with
  | [] => .error .value
  | f :: rest =>
    if rest.all (·.index = f.index) then .ok ⟨fs.flatMap (·.columns), f.index⟩
    else if fs.all fun g ↦ g.index.length = (allNames [g]).length then
      let names := allNames fs
      .ok ⟨fs.flatMap fun g ↦
        let rows := names.map fun n ↦ g.index.findIdx? (· == n)
        g.columns.map fun (l, c) ↦ (l, c.pickOr rows), names⟩
    else .error .unaligned

def relabel (f : Frame) : Frame :=
  { f with columns := f.columns.zipIdx.map fun (p, i) ↦ (.int i, p.2) }

/-- Some rows in a row, from one place to before another; places below zero count from the end. -/
def slice (start stop : Option Int) (f : Frame) : Frame :=
  let n : Int := f.height
  let place (i : Int) : Nat := (if i < 0 then max 0 (i + n) else min i n).toNat
  let first := (start.map place).getD 0
  let last := (stop.map place).getD f.height
  f.pick ((List.range last).drop first)

/-- The cells row by row, as integers and floating-point numbers are stored together. -/
def storedRows (f : Frame) : List (List Datum) :=
  let kinds := f.columns.map (·.2.kind)
  if kinds.all (fun k ↦ k = .ints || k = .floats) && kinds.contains .floats then
    rows { f with columns := f.columns.map fun (l, c) ↦ (l, c.convert .floats) }
  else f.rows

end Gridplan.Frame
