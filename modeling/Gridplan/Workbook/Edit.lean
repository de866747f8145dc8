import Gridplan.Expr.Codec

namespace Gridplan

/-- A step that changes a workbook. Rows and columns are counted from zero. -/
inductive Edit (φ : Type) where
  | create (name : String) (rows : Number) (cols : Int)
  | values (sheet : String) (row col : Int) (cells : Datum)
  | formula (sheet : String) (row col : Int) (body : φ) (needs : Option String)
  | named (name sheet : String) (rowStart colStart rowEnd colEnd : Int)
deriving Inhabited

namespace Edit

variable {φ ψ : Type}

def map (f : φ → ψ) : Edit φ → Edit ψ
  | .create name rows cols => .create name rows cols
  | .values sheet row col cells => .values sheet row col cells
  | .formula sheet row col body needs => .formula sheet row col (f body) needs
  | .named name sheet r c re ce => .named name sheet r c re ce

def sheet : Edit φ → String
  | .create name _ _ => name
  | .values sheet _ _ _ => sheet
  | .formula sheet _ _ _ _ => sheet
  | .named _ sheet _ _ _ _ => sheet

def layout : List (String × List String) :=
  [("CreateSheet", ["name", "rows", "cols"]), ("SetValues", ["sheet", "row", "col", "values"]),
    ("SetFormula", ["sheet", "row", "col", "formula", "ref"]),
    ("NamedRange", ["name", "sheet", "row_start", "col_start", "row_end", "col_end"])]

structure Form where
  kind : String
  fields : List (String × Datum)

def Form.ofDatum (d : Datum) : Outcome Form :=
  match d with
  | .record fs => do
    let tag := (fs.lookup "type").getD .null
    match tag.text?.bind fun t ↦ layout.lookup t with
    | none => .error (.grid (.edit tag))
    | some names =>
      let fields ← names.mapM fun n ↦
        if n = "ref" then .ok (n, (fs.lookup n).getD .null)
        else do return (n, ← Expr.need d n)
      return ⟨tag.display, fields⟩
  | _ => .error .member

def Form.toDatum (f : Form) : Datum := .record (("type", .text f.kind) :: f.fields)

def Form.describe (f : Form) : String :=
  f.kind ++ "(" ++ ", ".intercalate (f.fields.map fun (n, v) ↦ n ++ "=" ++ v.quoted) ++ ")"

def form : Edit String → Form
  | .create name rows cols =>
    ⟨"CreateSheet", [("name", .text name), ("rows", rows.toDatum), ("cols", .int cols)]⟩
  | .values sheet row col cells =>
    ⟨"SetValues", [("sheet", .text sheet), ("row", .int row), ("col", .int col), ("values", cells)]⟩
  | .formula sheet row col body needs =>
    ⟨"SetFormula", [("sheet", .text sheet), ("row", .int row), ("col", .int col),
      ("formula", .text body), ("ref", Datum.ofText? needs)]⟩
  | .named name sheet r c re ce =>
    ⟨"NamedRange", [("name", .text name), ("sheet", .text sheet), ("row_start", .int r),
      ("col_start", .int c), ("row_end", .int re), ("col_end", .int ce)]⟩

def toDatum (e : Edit String) : Datum := e.form.toDatum

def ofForm? (f : Form) : Option (Edit String) :=
  match f.kind, (f.fields.map fun p ↦ p.2 : List Datum) with
  | "CreateSheet", [.text name, .int rows, .int cols] => some (.create name (.int rows) cols)
  | "CreateSheet", [.text name, .float rows, .int cols] => some (.create name (.float rows) cols)
  | "SetValues", [.text sheet, .int row, .int col, cells] => some (.values sheet row col cells)
  | "SetFormula", [.text sheet, .int row, .int col, .text body, .null] =>
    some (.formula sheet row col body none)
  | "SetFormula", [.text sheet, .int row, .int col, .text body, .text ref] =>
    some (.formula sheet row col body (some ref))
  | "NamedRange", [.text name, .text sheet, .int r, .int c, .int re, .int ce] =>
    some (.named name sheet r c re ce)
  | _, _ => none

def ofDatum (d : Datum) : Outcome (Edit String) := do
  match ofForm? (← Form.ofDatum d) with
  | some e => return e
  | none => .error .kind

end Edit

end Gridplan
