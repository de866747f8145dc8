import Gridplan.Fault

namespace Gridplan

/-- An expression. `raw` stands for a value in a place where an expression belongs: it is shown and
stored as it is, and has no meaning of its own. -/
inductive Expr where
  | verbatim (text : String)
  | column (name : String)
  | literal (value : Datum)
  | binary (op : String) (left right : Expr)
  | unary (op : String) (operand : Expr)
  | call (func : String) (args : List Expr)
  | raw (value : Datum)
deriving Inhabited

namespace Expr

def truthy : Expr → Bool
  | .raw d => d.truthy
  | _ => true

def kindName : Expr → String
  | .verbatim _ => "Expression"
  | .column _ => "Column"
  | .literal _ => "Literal"
  | .binary .. => "BinaryOp"
  | .unary .. => "UnaryOp"
  | .call .. => "FunctionCall"
  | .raw d => d.kindName

mutual

def display : Expr → String
  | .verbatim t => t
  | .column n => n
  | .literal v => v.quoted
  | .binary op l r => "(" ++ display l ++ " " ++ op ++ " " ++ display r ++ ")"
  | .unary op e => "(" ++ op ++ " " ++ display e ++ ")"
  | .call f args => f ++ "(" ++ ", ".intercalate (displayList args) ++ ")"
  | .raw d => d.display

def displayList : List Expr → List String
  | [] => []
  | e :: es => display e :: displayList es

end

mutual

def columns : Expr → List String
  | .column n => [n]
  | .binary _ l r => columns l ++ columns r
  | .unary _ e => columns e
  | .call _ args => columnsList args
  | _ => []

def columnsList : List Expr → List String
  | [] => []
  | e :: es => columns e ++ columnsList es

end

mutual

def visit (seen : List String) : Expr → List String
  | .column n => if seen.contains n then seen else seen ++ [n]
  | .binary _ l r => visit (visit seen l) r
  | .unary _ e => visit seen e
  | .call _ args => visitList seen args
  | _ => seen

def visitList (seen : List String) : List Expr → List String
  | [] => seen
  | e :: es => visitList (visit seen e) es

end

def references (e : Expr) : List String := visit [] e

mutual

theorem mem_visit {n : String} (seen : List String) :
    ∀ e : Expr, n ∈ e.visit seen ↔ n ∈ seen ∨ n ∈ e.columns
  | .column m => by
    rw [visit, columns, List.mem_singleton]
    split
    · next h =>
      have hm : m ∈ seen := by simpa using h
      exact ⟨.inl, fun h ↦ h.elim id fun h ↦ h ▸ hm⟩
    · rw [List.mem_append, List.mem_singleton]
  | .binary _ l r => by
    rw [visit, mem_visit (visit seen l) r, mem_visit seen l, columns, List.mem_append, or_assoc]
  | .unary _ e => by rw [visit, mem_visit seen e, columns]
  | .call _ args => by rw [visit, mem_visitList seen args, columns]
  | .verbatim _ | .literal _ | .raw _ => by simp [visit, columns]

theorem mem_visitList {n : String} (seen : List String) :
    ∀ es : List Expr, n ∈ visitList seen es ↔ n ∈ seen ∨ n ∈ columnsList es
  | [] => by simp [visitList, columnsList]
  | e :: es => by
    rw [visitList, mem_visitList (visit seen e) es, mem_visit seen e, columnsList, List.mem_append,
      or_assoc]

end

theorem mem_references {e : Expr} {n : String} : n ∈ e.references ↔ n ∈ e.columns := by
  rw [references, mem_visit, or_iff_right List.not_mem_nil]

def conj (a b : Expr) : Expr := .binary "and" a b

def lift : Expr → Expr
  | .raw d => .literal d
  | e => e

end Expr

end Gridplan
