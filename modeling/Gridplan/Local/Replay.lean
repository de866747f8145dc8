import Gridplan.Local.Arrays
import Gridplan.Service.Script
import Gridplan.Datum.Arithmetic

namespace Gridplan.Local

inductive Literal where
  | empty
  | boolean (b : Bool)
  | number (x : Float)
  | text (s : String)

namespace Literal

/-- The content for a value; not-a-number is empty, and data of other kinds is shown as text. -/
def ofDatum : Datum → Outcome Literal
  | .null => .ok .empty
  | .bool b => .ok (.boolean b)
  | .int n => do return .number (← Datum.toFloat (.int n))
  | .float x => .ok (if x.isNaN then .empty else .number x)
  | d => .ok (.text d.display)

def toDatum : Literal → Datum
  | .empty => .null
  | .boolean b => .bool b
  | .number x => .float x
  | .text s => .text s

def kind : Literal → String
  | .empty => "empty"
  | .boolean _ => "boolean"
  | .number _ => "number"
  | .text _ => "text"

end Literal

inductive Event where
  | addSheet (name : String)
  | setValue (sheet : String) (row col : Int) (content : Literal)
  | setFormula (sheet : String) (row col : Int) (text : String)
  | evaluate (sheet : String) (cells : Nat)

abbrev Trace := List Event × Option Fault

def Trace.append (a : Trace) (b : Trace) : Trace :=
  match a.2 with
  | some _ => a
  | none => (a.1 ++ b.1, b.2)

def traceAll {α : Type} (f : α → Trace) : List α → Trace
  | [] => ([], none)
  | x :: xs => (f x).append (traceAll f xs)

def traceOf {α : Type} (o : Outcome α) (f : α → Trace) : Trace :=
  match o with
  | .error e => ([], some e)
  | .ok a => f a

def setValues (sheet : String) (row col : Int) (cells : Datum) : Trace :=
  if cells.truthy then
    traceOf cells.items fun rows ↦ traceAll (fun (r, i) ↦
      traceOf (Datum.items r) fun xs ↦ traceAll (fun (x, j) ↦
        traceOf (Literal.ofDatum x) fun content ↦
          ([.setValue sheet (row + (i : Nat) + 1) (col + (j : Nat) + 1) content], none)) xs.zipIdx)
      rows.zipIdx
  else ([], none)

def editTrace : Edit String → Trace
  | .create name _ _ => ([.addSheet name], none)
  | .values sheet row col cells => setValues sheet row col cells
  | .formula sheet row col body _ =>
    ([.setFormula sheet (row + 1) (col + 1) (stackArrays (Service.withEquals body))], none)
  | .named .. => ([], none)

/-- The sizes of the sheets that edits create; a later size of the same name takes the place of the
earlier one. -/
def sizes (es : List (Edit String)) : List (String × Number × Int) :=
  es.foldl (fun known e ↦ match e with
    | .create name rows cols =>
      if known.any (·.1 == name) then
        known.map fun k ↦ if k.1 == name then (name, rows, cols) else k
      else known ++ [(name, rows, cols)]
    | _ => known) []

/-- Every cell of every sheet is computed in turn. A sheet whose last row is not whole has no cells to
go through. -/
def evaluations (known : List (String × Number × Int)) : Trace :=
  traceAll (fun (name, rows, cols) ↦ match rows with
    | .int rows =>
      let n := rows.toNat * cols.toNat
      (if n = 0 then [] else [.evaluate name n], none)
    | .float _ => ([], some .kind)) known

def replay (s : Schedule String) : Trace :=
  (traceAll editTrace s.edits).append (evaluations (sizes s.edits))

/-- Computed values of cells: sheet, row and column counted from one, and value. -/
abbrev Computed := List (String × Int × Int × Datum)

def lastWritten (events : List Event) (sheet : String) (row col : Int) : Datum :=
  events.foldl (fun d e ↦ match e with
    | .setValue s r c content => if s == sheet && r == row && c == col then content.toDatum else d
    | _ => d) .null

def cellValue (computed : Computed) (events : List Event) (sheet : String) (row col : Int) : Datum :=
  match computed.reverse.find? fun (s, r, c, _) ↦ s == sheet && r == row && c == col with
  | some (_, _, _, d) => d
  | none => lastWritten events sheet row col

/-- A cell as it is read: missing values and errors are empty texts. -/
def normalize : Datum → Datum
  | .null => .text ""
  | .record _ => .text ""
  | .float x => if x.isNaN then .text "" else .float x
  | d => d

def isBlankRow (row : List Datum) : Bool := row.all (·.same (.text ""))

def trimRows (rows : List (List Datum)) : List (List Datum) :=
  (rows.reverse.dropWhile isBlankRow).reverse

def writesTo (sheet : String) : Event → Bool
  | .setValue s _ _ _ => s == sheet
  | _ => false

def readSheet (s : Schedule String) (computed : Computed) (sheet : String) :
    Outcome (List (List Datum)) :=
  match (sizes s.edits).lookup sheet with
  | none => .error .label
  | some (.float _, _) => .error .kind
  | some (.int rows, cols) =>
    let events := (traceAll editTrace s.edits).1.filter (writesTo sheet)
    .ok (trimRows ((List.range rows.toNat).map fun (i : Nat) ↦
      (List.range cols.toNat).map fun (j : Nat) ↦
        normalize (cellValue computed events sheet (i + 1) (j + 1))))

end Gridplan.Local
