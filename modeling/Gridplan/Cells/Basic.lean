import Gridplan.Datum.Convert

namespace Gridplan.Cells

/-- The rows of an array: a single cell is one row of one cell, and a list of cells is a column. -/
def rows : Datum → List Datum
  | .list [] => []
  | .list (.list r :: rs) => .list r :: rs
  | .list ds => ds.map fun d ↦ .list [d]
  | d => [.list [d]]

def single : Datum → Datum
  | .list [d] => single d
  | d => d

def column (d : Datum) : List Datum := (rows d).map single

def blank : Datum := .list [.list [.text ""]]

/-- Rows as an array; no rows make the array of one empty cell. -/
def orBlank (rs : List Datum) : Datum := if rs.isEmpty then blank else .list rs

def notFound : Datum := .record [("type", .text "Error"), ("kind", .text "NA")]

end Gridplan.Cells
