import Gridplan.Lambda.Literal

namespace Gridplan.Lambda

inductive BinaryOp where
  | add | sub | mul | div | mod | pow | floorDiv | matMul | shiftLeft | shiftRight | bitOr | bitXor
  | bitAnd
deriving DecidableEq

inductive UnaryOp where
  | neg | pos | not | invert
deriving DecidableEq

inductive CompareOp where
  | eq | ne | lt | le | gt | ge | same | different | among | notAmong
deriving DecidableEq

/-- Terms that have no formula, by shape. -/
inductive Shape where
  | conjunction | disjunction | namedExpr | ifExp | dict | set | listComp | setComp | dictComp | generator | await
  | yield | yieldFrom | formatted | starred | list | tuple | slice
deriving DecidableEq

def BinaryOp.title : BinaryOp → String
  | .add => "Add"
  | .sub => "Sub"
  | .mul => "Mult"
  | .div => "Div"
  | .mod => "Mod"
  | .pow => "Pow"
  | .floorDiv => "FloorDiv"
  | .matMul => "MatMult"
  | .shiftLeft => "LShift"
  | .shiftRight => "RShift"
  | .bitOr => "BitOr"
  | .bitXor => "BitXor"
  | .bitAnd => "BitAnd"

def UnaryOp.title : UnaryOp → String
  | .neg => "USub"
  | .pos => "UAdd"
  | .not => "Not"
  | .invert => "Invert"

def CompareOp.title : CompareOp → String
  | .eq => "Eq"
  | .ne => "NotEq"
  | .lt => "Lt"
  | .le => "LtE"
  | .gt => "Gt"
  | .ge => "GtE"
  | .same => "Is"
  | .different => "IsNot"
  | .among => "In"
  | .notAmong => "NotIn"

def Shape.title : Shape → String
  | .conjunction => "BoolOp"
  | .disjunction => "BoolOp"
  | .namedExpr => "NamedExpr"
  | .ifExp => "IfExp"
  | .dict => "Dict"
  | .set => "Set"
  | .listComp => "ListComp"
  | .setComp => "SetComp"
  | .dictComp => "DictComp"
  | .generator => "GeneratorExp"
  | .await => "Await"
  | .yield => "Yield"
  | .yieldFrom => "YieldFrom"
  | .formatted => "JoinedStr"
  | .starred => "Starred"
  | .list => "List"
  | .tuple => "Tuple"
  | .slice => "Slice"

/-- A term. A lambda keeps the names of the parameters that can be given by position or by name, and
the defaults of all. -/
inductive Term where
  | literal (l : Literal)
  | name (s : String)
  | binary (op : BinaryOp) (left right : Term)
  | unary (op : UnaryOp) (operand : Term)
  | compare (left : Term) (rest : List (CompareOp × Term))
  | subscript (value index : Term)
  | attribute (value : Term) (name : String)
  | call (func : Term) (args : List Term) (keywords : List (Option String × Term))
  | lambda (params : List String) (defaults : List Term) (body : Term)
  | other (shape : Shape) (parts : List Term)
deriving Inhabited

namespace Term

def parts : Term → List Term
  | .literal _ => []
  | .name _ => []
  | .binary _ a b => [a, b]
  | .unary _ a => [a]
  | .compare a rest => a :: rest.map (·.2)
  | .subscript a i => [a, i]
  | .attribute a _ => [a]
  | .call f args keywords => f :: args ++ keywords.map (·.2)
  | .lambda _ defaults body => defaults ++ [body]
  | .other _ ts => ts

mutual

def isTarget : Term → Bool
  | .name _ => true
  | .attribute _ _ => true
  | .subscript _ _ => true
  | .other .list ts => areTargets ts
  | .other .tuple ts => areTargets ts
  | .other .starred ts => areTargets ts
  | _ => false

def areTargets : List Term → Bool
  | [] => true
  | t :: ts => isTarget t && areTargets ts

end

end Term

end Gridplan.Lambda
