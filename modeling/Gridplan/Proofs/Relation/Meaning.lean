import Gridplan.Proofs.Plan.Storing
import Gridplan.Proofs.Relation.Basic

namespace Gridplan

structure Interpretation extends Algebra where
  source : String → Option (List String) → Option Relation
  source_columns : ∀ {id schema R}, source id (some schema) = some R → R.columns = schema
  other : Operator → List Relation → Option Relation

def Operator.read : Operator → Operator
  | .source id schema _ => .source id schema none
  | .select names e => .select names (e.map Expr.read)
  | .filter e => .filter e.read
  | .sort keys cap e => .sort keys cap (e.map Expr.read)
  | .withColumn name e => .withColumn name e.read
  | op => op

theorem Operator.read_filed {op : Operator} (h : op.isStorable = true) :
    op.filed.read = op.read := by
  cases op with
  | select _ e | sort _ _ e =>
    cases e with
    | none => rfl
    | some e =>
      have he : e.isStorable = true := h
      simp [Operator.filed, Operator.read, Expr.read_filed he]
  | filter e | withColumn _ e =>
    have he : e.isStorable = true := h
    simp [Operator.filed, Operator.read, Expr.read_filed he]
  | _ => rfl

def Interpretation.apply (I : Interpretation) : Operator → List Relation → Option Relation
  | .source id schema none, [] => I.source id schema
  | .select names e, [R] =>
    match e with
    | none => R.project names
    | some e => do (← R.restrict I.toAlgebra e).project names
  | .filter e, [R] => R.restrict I.toAlgebra e
  | op, Rs => I.other op Rs

namespace Plan

mutual

/-- The relation that a plan computes. A record in the place of an expression means the expression
that is read from it. -/
def meaning (I : Interpretation) : Plan → Option Relation
  | .node _ op is => do I.apply op.read (← meaningList I is)

def meaningList (I : Interpretation) : List Plan → Option (List Relation)
  | [] => some []
  | p :: ps => do return (← meaning I p) :: (← meaningList I ps)

end

variable {I : Interpretation} {m : Option Nat} {op : Operator} {is : List Plan} {p q : Plan}
  {e : Expr} {names : List String} {R : Relation}

theorem meaningList_congr {js : List Plan}
    (h : List.Forall₂ (fun p q ↦ p.meaning I = q.meaning I) is js) :
    meaningList I is = meaningList I js := by
  induction h with
  | nil => rfl
  | cons h _ ih => rw [meaningList, meaningList, h, ih]

theorem meaning_congr {m' : Option Nat} {op' : Operator} {js : List Plan} (hop : op.read = op'.read)
    (h : List.Forall₂ (fun p q ↦ p.meaning I = q.meaning I) is js) :
    meaning I (.node m op is) = meaning I (.node m' op' js) := by
  rw [meaning, meaning, meaningList_congr h, hop]

theorem meaning_of_mem (h : meaning I (.node m op is) = some R) (hq : q ∈ is) :
    ∃ S, q.meaning I = some S := by
  have hlist : ∀ {is Rs}, meaningList I is = some Rs → ∀ q ∈ is, ∃ S, q.meaning I = some S := by
    intro is
    induction is with
    | nil => simp
    | cons p ps ih =>
      intro Rs hps
      simp only [meaningList, Option.bind_eq_bind, Option.bind_eq_some_iff] at hps
      obtain ⟨S, hS, Ss, hSs, -⟩ := hps
      exact List.forall_mem_cons.mpr ⟨⟨S, hS⟩, ih hSs⟩
  rw [meaning, Option.bind_eq_bind, Option.bind_eq_some_iff] at h
  obtain ⟨Rs, hRs, -⟩ := h
  exact hlist hRs q hq

theorem meaning_filter : meaning I (.node m (.filter e) [p]) = some R ↔
    ∃ S, p.meaning I = some S ∧ S.restrict I.toAlgebra e.read = some R := by
  simp [meaning, meaningList, Interpretation.apply, Operator.read, Option.bind_eq_some_iff]

theorem meaning_select : meaning I (.node m (.select names none) [p]) = some R ↔
    ∃ S, p.meaning I = some S ∧ S.project names = some R := by
  simp [meaning, meaningList, Interpretation.apply, Operator.read, Option.bind_eq_some_iff]

theorem columns_of_schema? {schema : List String} (hs : p.schema? = some schema)
    (hi : p.inputs = []) (h : p.meaning I = some R) : R.columns = schema := by
  obtain ⟨m, op, is⟩ := p
  obtain rfl : is = [] := hi
  cases op with
  | source id s data =>
    obtain rfl : s = some schema := hs
    exact I.source_columns (by simpa [meaning, meaningList, Operator.read, Interpretation.apply] using h)
  | _ => cases hs

theorem Built.offers (h : p.Built) (hm : p.meaning I = some R) (hn : ∀ n ∈ names, n ∈ R.columns) :
    p.Offers names := by
  intro schema hs n hmem
  have hi : p.inputs = [] := by
    obtain ⟨m, op, is⟩ := p
    cases op with
    | source id s data => exact (built_node.mp h).1.2
    | _ => cases hs
  rw [← columns_of_schema? hs hi hm]
  exact hn n hmem

theorem meaning_filed (hs : p.isStorable = true) : p.filed.meaning I = p.meaning I := by
  induction p with
  | node m op is ih =>
    obtain ⟨hop, his⟩ := isStorable_node.mp hs
    rw [filed_node]
    refine meaning_congr (Operator.read_filed hop) ?_
    rw [List.forall₂_map_left_iff, List.forall₂_same]
    exact fun q hq ↦ ih q hq (his q hq)

end Plan

end Gridplan
