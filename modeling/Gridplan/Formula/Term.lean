import Gridplan.Grid.Letters

namespace Gridplan.Formula

/-- A corner of a reference: a column counted from zero and the number of a row as it is written.
Either can be fixed. -/
structure Corner where
  col : Nat
  number : Nat
  fixedCol : Bool := false
  fixedRow : Bool := false
deriving DecidableEq, Repr

def Corner.render (c : Corner) : String :=
  (if c.fixedCol then "$" else "") ++ Grid.letters c.col ++ (if c.fixedRow then "$" else "") ++
    toString c.number

/-- A reference to a cell, or to the cells between two corners. Without a sheet it is to the sheet
of the formula. -/
structure Ref where
  sheet : Option String
  first : Corner
  last : Option Corner := none
  quoted : Bool := false
deriving DecidableEq, Repr

def Ref.render (r : Ref) : String :=
  (match r.sheet with
    | none => ""
    | some s => if r.quoted then "'" ++ s ++ "'!" else s ++ "!") ++
    r.first.render ++
    (match r.last with
      | none => ""
      | some c => ":" ++ c.render)

/-- A formula. Every reference to cells is a term of its own, so that what a formula reads can be
told without looking at its text. -/
inductive Term where
  | ref (r : Ref)
  | int (n : Int)
  | quoted (s : String)
  | text (s : String)
  /-- A text into which references were written, with all those that may stand in it. -/
  | woven (s : String) (refs : List Ref)
  | call (func : String) (args : List Term)
  | binary (op : String) (left right : Term)
  | negative (t : Term)
  | group (t : Term)
  /-- Columns side by side. -/
  | beside (ts : List Term)
  /-- Blocks on top of each other. -/
  | stacked (ts : List Term)
deriving Inhabited

namespace Term

mutual

def render : Term → String
  | .ref r => r.render
  | .int n => toString n
  | .quoted s => "\"" ++ s ++ "\""
  | .text s => s
  | .woven s _ => s
  | .call f args => f ++ "(" ++ ", ".intercalate (renderList args) ++ ")"
  | .binary op l r => render l ++ op ++ render r
  | .negative t => "-" ++ render t
  | .group t => "(" ++ render t ++ ")"
  | .beside ts => "\x7b" ++ ", ".intercalate (renderList ts) ++ "\x7d"
  | .stacked ts => "\x7b" ++ "; ".intercalate (renderList ts) ++ "\x7d"

def renderList : List Term → List String
  | [] => []
  | t :: ts => render t :: renderList ts

end

mutual

def refs : Term → List Ref
  | .ref r => [r]
  | .woven _ rs => rs
  | .call _ args => refsList args
  | .binary _ l r => refs l ++ refs r
  | .negative t => refs t
  | .group t => refs t
  | .beside ts => refsList ts
  | .stacked ts => refsList ts
  | _ => []

def refsList : List Term → List Ref
  | [] => []
  | t :: ts => refs t ++ refsList ts

end

theorem refsList_eq (ts : List Term) : refsList ts = ts.flatMap refs := by
  induction ts with
  | nil => rfl
  | cons t ts ih => rw [refsList, ih, List.flatMap_cons]

theorem refs_call (f : String) (args : List Term) : refs (.call f args) = args.flatMap refs := by
  rw [refs, refsList_eq]

def formula (t : Term) : String := "=" ++ t.render

def join (op : String) : Term → List Term → Term
  | t, [] => t
  | t, u :: us => join op (.binary op t u) us

end Term

end Gridplan.Formula
