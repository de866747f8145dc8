import Gridplan.Fault
import Gridplan.Lambda.Grammar
import Gridplan.Text.Case
import Gridplan.Text.Replace

namespace Gridplan.Lambda

def BinaryOp.sign? : BinaryOp → Option String
  | .add => some "+"
  | .sub => some "-"
  | .mul => some "*"
  | .div => some "/"
  | .pow => some "^"
  | _ => none

def CompareOp.sign? : CompareOp → Option String
  | .eq => some "="
  | .ne => some "<>"
  | .lt => some "<"
  | .le => some "<="
  | .gt => some ">"
  | .ge => some ">="
  | _ => none

def sharedFunctions : List String := ["ABS", "MIN", "MAX", "ROUND", "SQRT", "LEN"]

def Literal.formula : Literal → String
  | .datum (.text s) => "\"" ++ s ++ "\""
  | l => l.display

def infixed (a sign b : String) : String := "(" ++ a ++ " " ++ sign ++ " " ++ b ++ ")"

namespace Term

mutual

def formula (ref : Literal → String) : Term → Except LambdaRefusal String
  | .literal l => .ok l.formula
  | .name s => .ok (ref (.datum (.text s)))
  | .binary op a b => do
    let f ← formula ref a
    let g ← formula ref b
    match op, op.sign? with
    | .mod, _ => .ok ("MOD(" ++ f ++ ", " ++ g ++ ")")
    | _, some sign => .ok (infixed f sign g)
    | op, none => .error (.binary op.title)
  | .unary op a => do
    let f ← formula ref a
    match op with
    | .neg => .ok ("(-" ++ f ++ ")")
    | .pos => .ok f
    | op => .error (.unary op.title)
  | .compare a [(op, b)] => do
    let f ← formula ref a
    let g ← formula ref b
    match op.sign? with
    | some sign => .ok (infixed f sign g)
    | none => .error (.comparison op.title)
  | .compare a _ => do
    let _ ← formula ref a
    .error .chained
  | .subscript (.name _) (.literal l) => .ok (ref l)
  | .subscript _ _ => .error .subscript
  | .call (.name f) args _ =>
    let f := Text.upper f
    if f ∈ sharedFunctions then do
      let gs ← formulas ref args
      .ok (f ++ "(" ++ ", ".intercalate gs ++ ")")
    else .error (.function f)
  | .call _ _ _ => .error .method
  | .attribute _ _ => .error .attribute
  | .lambda _ _ _ => .error (.node "Lambda")
  | .other shape _ => .error (.node shape.title)

def formulas (ref : Literal → String) : List Term → Except LambdaRefusal (List String)
  | [] => .ok []
  | t :: ts => do
    let f ← formula ref t
    let fs ← formulas ref ts
    .ok (f :: fs)

end

mutual

def references : Term → List Literal
  | .name s => [.datum (.text s)]
  | .binary _ a b => references a ++ references b
  | .unary _ a => references a
  | .compare a [(_, b)] => references a ++ references b
  | .subscript (.name _) (.literal l) => [l]
  | .call (.name _) args _ => referencesList args
  | _ => []

def referencesList : List Term → List Literal
  | [] => []
  | t :: ts => references t ++ referencesList ts

end

def placeholder (l : Literal) : String := "\x7b\x7b" ++ l.display ++ "\x7d\x7d"

def template (t : Term) : Except LambdaRefusal String := formula placeholder t

end Term

structure Analysis where
  template : String
  params : List String
  references : List Literal

namespace Analysis

def ofText (s : String) : Except LambdaRefusal Analysis :=
  match Term.parse? s with
  | none => .error .unreadable
  | some (.lambda params _ body) => do
    return ⟨← body.template, params, Literal.distinct body.references⟩
  | some _ => .error .notLambda

def cell (cells : List (String × Datum)) (l : Literal) : Outcome Datum :=
  match l with
  | .datum (.text s) =>
    match cells.lookup s with
    | some d => .ok d
    | none => .error (.unmapped s)
  | l => .error (.unmapped l.display)

def fill (cells : List (String × Datum)) (template : String) (l : Literal) : Outcome String := do
  match ← cell cells l with
  | .text c => return Text.replace template (Term.placeholder l) c
  | _ => .error .kind

def formula (s : String) (cells : List (String × Datum)) : Outcome String :=
  match ofText s with
  | .error r => .error (.unsupported (.lambda r))
  | .ok a => do return "=" ++ (← a.references.foldlM (fill cells) a.template)

end Analysis

end Gridplan.Lambda
