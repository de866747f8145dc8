import Gridplan.Formula.Block
import Gridplan.Workbook.Edit
import Gridplan.Plan.Basic

namespace Gridplan.Layout

open Formula

abbrev Step := Edit Term

structure Placement where
  edits : List Step
  block : Block

def sheetName (kind : Kind) (counter : Nat) : String := kind.title ++ "_" ++ toString counter

def header (sheet : String) (schema : List String) : Step :=
  .values sheet 0 0 (.list [Datum.ofTexts schema])

def put (sheet : String) (row col : Nat) (t : Term) : Step := .formula sheet row col t none

/-- A number of rows as it is asked for, with the term that stands for it in formulas. -/
structure Amount where
  rows : Extent
  shown : Term

namespace Amount

def ofNat (n : Nat) : Amount := ⟨.whole n, .int n⟩

/-- The amount that a datum asks for. A truth value asks for one row or none. -/
def ofDatum? (d : Datum) : Option Amount :=
  match d with
  | .int n => some (ofNat n.toNat)
  | .float x => some ⟨.part x, .text d.display⟩
  | .bool b => some ⟨.whole b.toNat, .text d.display⟩
  | _ => none

end Amount

def opening (sheet : String) (rows : Extent) (schema : List String) : List Step :=
  [.create sheet rows.toNumber schema.length, header sheet schema]

def place (sheet : String) (schema : List String) (rowEnd : Extent) (edits : List Step) :
    Outcome Placement := do
  let colEnd := (schema.length : Int) - 1
  match rowEnd with
  | .whole n => return ⟨edits, { sheet, range := ← Range.fromOrigin n colEnd, schema }⟩
  | .part x =>
    let whole := (Decimal.Binary.ofFloat x).elim 0 Decimal.Binary.truncate
    return ⟨edits, { sheet, range := ← Range.fromOrigin whole colEnd, schema, part := some x }⟩

def sideBySide : List Term → Term
  | [t] => t
  | ts => .beside ts

def spread (t : Term) : Term := .call "ARRAYFORMULA" [t]

def blank : Term := .quoted ""

def notBlank (t : Term) : Term := .binary "<>" t blank

def allOf (c : Term) : List Term → Term
  | [] => c
  | cs => Term.join "*" (.group c) (cs.map .group)

def extra (b : Block) (predicate : Option Expr) : Outcome (List Term) :=
  match predicate with
  | some p => if p.truthy then do return [← b.condition p] else .ok []
  | none => .ok []

def firstColumn (b : Block) : Outcome Term :=
  match b.schema with
  | [] => .error .position
  | name :: _ => b.column name

end Gridplan.Layout
