import Gridplan.Csv.Record
import Gridplan.Frame.Column
import Gridplan.Text.Real

namespace Gridplan.Csv

def missingTexts : List String :=
  ["", "#N/A", "#N/A N/A", "#NA", "-1.#IND", "-1.#QNAN", "-NaN", "-nan", "1.#IND", "1.#QNAN", "<NA>",
    "N/A", "NA", "NULL", "NaN", "None", "n/a", "nan", "null"]

def present? (s : String) : Option String := if missingTexts.contains s then none else some s

def int? (s : String) : Option Int :=
  if s.toList.all fun c ↦ c.toNat < 128 && c ≠ '_' then Text.readInt s else none

def float? (s : String) : Option Float :=
  if s.toList.all fun c ↦ c.toNat < 128 && c ≠ '_' then Text.readFloat s else none

def bool? : String → Option Bool
  | "True" | "TRUE" | "true" => some true
  | "False" | "FALSE" | "false" => some false
  | _ => none

/-- The cells of fields. Integers of 64 bits, floating-point numbers, truth values, or else texts; a
missing field makes room for missing cells. -/
def column (texts : List String) : Column :=
  let cells := texts.map present?
  let given := cells.filterMap id
  let full := given.length = texts.length
  if texts.isEmpty then .mixed []
  else if given.isEmpty then .floats (texts.map fun _ ↦ Column.nan)
  else
    match given.mapM int?, given.mapM float?, given.mapM bool? with
    | some ns, some _, _ =>
      if full then
        if ns.all Column.fits then .ints ns
        else if ns.all fun n ↦ 0 ≤ n && n < Int.pow 2 64 then .mixed (ns.map .int)
        else .mixed (texts.map .text)
      else .floats (cells.map fun s ↦ ((s.bind float?).getD Column.nan))
    | _, some _, _ => .floats (cells.map fun s ↦ ((s.bind float?).getD Column.nan))
    | _, _, some bs =>
      if full then .bools bs
      else .mixed (cells.map fun s ↦ ((s.bind bool?).map .bool).getD .null)
    | _, _, _ => .mixed (cells.map fun s ↦ (s.map .text).getD .null)

def freshName (all used : List String) (name : String) : Nat → Nat → String
  | 0, _ => name
  | fuel + 1, k =>
    let next := name ++ "." ++ toString k
    if all.contains next || used.contains next then freshName all used name fuel (k + 1) else next

def names (header : List Field) : List String :=
  let all := header.zipIdx.map fun (f, i) ↦ if f.text = "" then "Unnamed: " ++ toString i else f.text
  all.foldl (fun used n ↦
    used ++ [if used.contains n then freshName all used n (2 * all.length) 1 else n]) []

/-- The frame of a text. Short records are filled up with missing cells; when the first record is
longer than the header, its surplus at the front names rows, and no record is longer than that. -/
def frame (s : String) : Outcome Frame := do
  match ← records s with
  | [] => .error .value
  | header :: rows =>
    let labels := names header
    let width := max labels.length ((rows.head?.map List.length).getD 0)
    if rows.any (·.length > width) then .error .value
    else
      let surplus := width - labels.length
      let columns := labels.zipIdx.map fun (l, i) ↦
        (Datum.text l, column (rows.map fun r ↦ (r[i + surplus]?.map Field.text).getD ""))
      return ⟨columns, Frame.numbered rows.length⟩

end Gridplan.Csv
