import Gridplan.Grid.Address
import Gridplan.Datum.Arithmetic

namespace Gridplan

structure Sheet where
  name : String
  rows : Datum
  cols : Datum
deriving DecidableEq

namespace Sheet

def new (name rows cols : Datum) : Outcome Sheet :=
  match name with
  | .text s => do
    if s = "" then .error (.grid .sheetName)
    if ← Datum.compareBy .le rows (.int 0) then .error (.grid .sheetSize)
    if ← Datum.compareBy .le cols (.int 0) then .error (.grid .sheetSize)
    return ⟨s, rows, cols⟩
  | _ => .error (.grid .sheetName)

def describe (s : Sheet) : String :=
  "Sheet(name=" ++ Text.quote s.name ++ ", rows=" ++ s.rows.quoted ++ ", cols=" ++ s.cols.quoted ++ ")"

end Sheet

structure Reference where
  range : String
  sheet : Option String
deriving DecidableEq

namespace Reference

def new (range : String) (sheet : Option String) : Reference :=
  ⟨Text.trim range, match sheet with
    | none | some "" => none
    | some s => some (Text.trim s)⟩

def ofData (range sheet : Datum) : Outcome Reference :=
  match range, sheet with
  | .text r, .null => .ok (new r none)
  | .text r, .text s => .ok (new r (some s))
  | .text r, d => if d.truthy then .error .member else .ok (new r none)
  | _, _ => .error (.grid .reference)

def needsQuotes (s : String) : Bool := s.toList.any fun c ↦ c == ' ' || c == '!'

def toText (r : Reference) : String :=
  match r.sheet with
  | none | some "" => r.range
  | some s => if needsQuotes s then "'" ++ s ++ "'!" ++ r.range else s ++ "!" ++ r.range

def isCrossSheet (r : Reference) : Bool := r.sheet.isSome

def describe (r : Reference) : String :=
  match r.sheet with
  | none | some "" => "Reference(" ++ Text.quote r.range ++ ")"
  | some s => "Reference(" ++ Text.quote r.range ++ ", sheet_name=" ++ Text.quote s ++ ")"

end Reference

structure FormulaText where
  expression : String

namespace FormulaText

def new : Datum → Outcome FormulaText
  | .text s => .ok ⟨Text.trim s⟩
  | _ => .error (.grid .formula)

def toText (f : FormulaText) : String :=
  if f.expression.startsWith "=" then f.expression else "=" ++ f.expression

def describe (f : FormulaText) : String := "Formula(" ++ Text.quote f.toText ++ ")"

/-- Formulas are equal when they read the same with their equals signs. -/
def same (f g : FormulaText) : Bool := f.toText == g.toText

end FormulaText

/-- The cell content for a value: a missing one is written as empty text. -/
def Datum.cell : Datum → Datum
  | .null => .text ""
  | d => d

end Gridplan
