import Gridplan.Formula.Term
import Gridplan.Grid.Address
import Gridplan.Grid.Extent
import Gridplan.Expr.Basic

namespace Gridplan.Formula

/-- A relation on a sheet: the range of header and rows, and the names of its columns. When the last
row is not whole, `part` is its exact place and the range ends in the row that it lies in. -/
structure Block where
  sheet : String
  range : Range
  schema : List String
  part : Option Float := none
deriving DecidableEq

def position (schema : List String) (name : String) : Outcome Nat :=
  match schema.idxOf? name with
  | some i => .ok i
  | none => .error .value

namespace Block

def rowEnd (b : Block) : Extent :=
  match b.part with
  | none => .whole b.range.rowEnd
  | some x => .part x

def depth (b : Block) : Extent := b.rowEnd.less b.range.row

/-- The cells of the block's sheet from a corner to a column in a row with a given number. A row that
is not whole has no corner, so its number is written as it is. The sheet is one that a layout made:
its name has no blanks and no exclamation marks, so there is nothing to trim or to put in quotes. -/
def upTo (b : Block) (first : Corner) (col : Nat) (number : Extent) : Term :=
  match number with
  | .whole n => .ref { sheet := some b.sheet, first, last := some { col, number := n } }
  | .part _ =>
    let start : Ref := { sheet := some b.sheet, first }
    .woven (start.render ++ ":" ++ Grid.letters col ++ number.toText) [start]

def columnAt (b : Block) (i : Nat) : Term :=
  b.upTo { col := b.range.col + i, number := b.range.row + 2 } (b.range.col + i) b.rowEnd.succ

def column (b : Block) (name : String) : Outcome Term := do
  return b.columnAt (← position b.schema name)

/-- All rows below the header; at least one row, and a single cell when there is only one. -/
def body (b : Block) : Term :=
  let top := b.range.row + 1
  let bottom := Extent.most (.whole top) b.rowEnd
  let first : Corner := { col := b.range.col, number := top + 1 }
  if bottom = .whole top ∧ b.range.col = b.range.colEnd then .ref { sheet := some b.sheet, first }
  else b.upTo first b.range.colEnd bottom.succ

def address (b : Block) : String :=
  match b.part with
  | none => b.range.toText
  | some x =>
    Range.cellText b.range.row b.range.col ++ ":" ++ Grid.letters b.range.colEnd ++
      (Extent.part x).succ.toText

end Block

def cell (sheet : String) (col number : Nat) : Term :=
  .ref { sheet := some sheet, first := { col, number } }

def operatorText : String → String
  | "==" => "="
  | "!=" => "<>"
  | "and" => "*"
  | "or" => "+"
  | op => op

namespace Block

mutual

/-- The term of an expression over a block. Whole numbers are written out in full, on the assumption
that there is no limit to the number of digits. -/
def expression (b : Block) : Expr → Outcome Term
  | .column n => b.column n
  | .literal (.text s) => .ok (.quoted s)
  | .literal v => .ok (.text v.quoted)
  | .binary op l r => do
    let left ← expression b l
    let right ← expression b r
    if op = "and" ∨ op = "or" then return .binary (operatorText op) (.group left) (.group right)
    else return .group (.binary (operatorText op) left right)
  | .unary op e => do
    let operand ← expression b e
    if op = "neg" then return .negative (.group operand)
    else if op = "not" then return .call "NOT" [operand]
    else return .call op [operand]
  | .call f args => do return .call f (← expressionList b args)
  | .verbatim t => .ok (.text t)
  | .raw d => .ok (.text d.display)

def expressionList (b : Block) : List Expr → Outcome (List Term)
  | [] => .ok []
  | e :: es => do return (← expression b e) :: (← expressionList b es)

end

def condition (b : Block) (e : Expr) : Outcome Term :=
  match e with
  | .verbatim _ | .raw _ => .error (.layout (.predicate e.kindName))
  | e => b.expression e

end Block

end Gridplan.Formula
