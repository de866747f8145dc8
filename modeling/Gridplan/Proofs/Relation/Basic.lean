import Gridplan.Expr.Basic
import Mathlib.Tactic

namespace Gridplan

structure Algebra where
  binary : String → Datum → Datum → Option Datum
  unary : String → Datum → Option Datum
  call : String → List Datum → Option Datum
  /-- The conjunction of truth values. -/
  both : ∀ a b : Bool, binary "and" (.bool a) (.bool b) = some (.bool (a && b))

namespace Expr

variable {look look' : String → Option Datum}

mutual

def value (A : Algebra) (look : String → Option Datum) : Expr → Option Datum
  | .column n => look n
  | .literal v => some v
  | .binary op l r => do A.binary op (← value A look l) (← value A look r)
  | .unary op e => do A.unary op (← value A look e)
  | .call f args => do A.call f (← valueList A look args)
  | .verbatim _ | .raw _ => none

def valueList (A : Algebra) (look : String → Option Datum) : List Expr → Option (List Datum)
  | [] => some []
  | e :: es => do return (← value A look e) :: (← valueList A look es)

end

mutual

theorem value_congr {A : Algebra} :
    ∀ e : Expr, (∀ n ∈ e.columns, look n = look' n) → e.value A look = e.value A look'
  | .verbatim _, _ | .literal _, _ | .raw _, _ => rfl
  | .column n, h => h n (by simp [columns])
  | .binary op l r, h => by
    have hl := value_congr (A := A) l fun n hn ↦ h n (by simp [columns, hn])
    have hr := value_congr (A := A) r fun n hn ↦ h n (by simp [columns, hn])
    simp only [value, hl, hr]
  | .unary op e, h => by
    simp only [value, value_congr (A := A) e h]
  | .call f args, h => by
    simp only [value, valueList_congr (A := A) args h]

theorem valueList_congr {A : Algebra} :
    ∀ es : List Expr, (∀ n ∈ columnsList es, look n = look' n) →
      valueList A look es = valueList A look' es
  | [], _ => rfl
  | e :: es, h => by
    have he := value_congr (A := A) e fun n hn ↦ h n (by simp [columnsList, hn])
    have hes := valueList_congr (A := A) es fun n hn ↦ h n (by simp [columnsList, hn])
    simp only [valueList, he, hes]

end

end Expr

structure Relation where
  columns : List String
  rows : List (List Datum)

namespace Relation

variable {A : Algebra} {R S T : Relation} {names : List String} {e : Expr}
variable {columns : List String} {row : List Datum}

def cell (columns : List String) (row : List Datum) (name : String) : Datum :=
  row.getD (columns.idxOf name) .null

def look (columns : List String) (row : List Datum) (name : String) : Option Datum :=
  if name ∈ columns then some (cell columns row name) else none

def project (names : List String) (R : Relation) : Option Relation :=
  if ∀ n ∈ names, n ∈ R.columns then
    some ⟨names, R.rows.map fun row ↦ names.map (cell R.columns row)⟩
  else none

def Defines (A : Algebra) (R : Relation) (e : Expr) : Prop :=
  (∀ n ∈ e.columns, n ∈ R.columns) ∧ ∀ row ∈ R.rows, (e.value A (look R.columns row)).isSome = true

def Decides (A : Algebra) (R : Relation) (e : Expr) : Prop :=
  ∀ row ∈ R.rows, ∃ b, e.value A (look R.columns row) = some (.bool b)

instance : Decidable (Defines A R e) := inferInstanceAs (Decidable (_ ∧ _))

instance : Decidable (Decides A R e) := inferInstanceAs
  (Decidable (∀ row ∈ R.rows, ∃ b, e.value A (look R.columns row) = some (.bool b)))

def restrict (A : Algebra) (e : Expr) (R : Relation) : Option Relation :=
  if Defines A R e then
    some ⟨R.columns, R.rows.filter fun row ↦ e.value A (look R.columns row) = some (.bool true)⟩
  else none

theorem project_eq_some : R.project names = some S ↔
    (∀ n ∈ names, n ∈ R.columns) ∧
      S = ⟨names, R.rows.map fun row ↦ names.map (cell R.columns row)⟩ := by
  simp only [project]
  split <;> simp_all [eq_comm]

theorem restrict_eq_some : R.restrict A e = some S ↔ Defines A R e ∧
    S = ⟨R.columns, R.rows.filter fun row ↦ e.value A (look R.columns row) = some (.bool true)⟩ := by
  simp only [restrict]
  split <;> simp_all [eq_comm]

theorem cell_map {n : String} (h : n ∈ names) :
    cell names (names.map (cell columns row)) n = cell columns row n := by
  have hn : names[names.idxOf n]? = some n := by
    rw [List.getElem?_eq_getElem (List.idxOf_lt_length_of_mem h), List.getElem_idxOf]
  rw [cell, List.getD_eq_getElem?_getD, List.getElem?_map, hn]
  rfl

theorem look_map {n : String} (h : n ∈ names) (hc : n ∈ columns) :
    look names (names.map (cell columns row)) n = look columns row n := by
  simp only [look, if_pos h, if_pos hc, cell_map h]

theorem project_project {inner : List String} (hS : R.project inner = some S)
    (hT : S.project names = some T) : R.project names = some T := by
  obtain ⟨hin, rfl⟩ := project_eq_some.mp hS
  obtain ⟨hout, rfl⟩ := project_eq_some.mp hT
  refine project_eq_some.mpr ⟨fun n hn ↦ hin n (hout n hn), ?_⟩
  simp only [List.map_map, mk.injEq, true_and]
  refine List.map_congr_left fun row _ ↦ List.map_congr_left fun n hn ↦ ?_
  exact cell_map (hout n hn)

theorem restrict_project (hS : R.project names = some S) (hT : S.restrict A e = some T) :
    ∃ U, R.restrict A e = some U ∧ U.project names = some T := by
  obtain ⟨hin, rfl⟩ := project_eq_some.mp hS
  obtain ⟨⟨hcols, hval⟩, rfl⟩ := restrict_eq_some.mp hT
  have hvalue : ∀ row, e.value A (look names (names.map (cell R.columns row))) =
      e.value A (look R.columns row) := fun row ↦
    e.value_congr fun n hn ↦ look_map (hcols n hn) (hin n (hcols n hn))
  refine ⟨_, restrict_eq_some.mpr ⟨⟨fun n hn ↦ hin n (hcols n hn), fun row hrow ↦ ?_⟩, rfl⟩,
    project_eq_some.mpr ⟨hin, ?_⟩⟩
  · rw [← hvalue]
    exact hval _ (List.mem_map_of_mem hrow)
  · simp only [List.filter_map, mk.injEq, true_and]
    refine congrArg _ (List.filter_congr fun row _ ↦ ?_)
    simp [hvalue]

theorem restrict_conj {d : Expr} (hd : R.Decides A d) (he : R.Decides A e)
    (hS : R.restrict A d = some S) (hT : S.restrict A e = some T) :
    R.restrict A (d.conj e) = some T ∧ R.Decides A (d.conj e) := by
  obtain ⟨⟨hdc, hdv⟩, rfl⟩ := restrict_eq_some.mp hS
  obtain ⟨⟨hec, hev⟩, rfl⟩ := restrict_eq_some.mp hT
  have hconj : ∀ row ∈ R.rows, ∃ a b, d.value A (look R.columns row) = some (.bool a) ∧
      e.value A (look R.columns row) = some (.bool b) ∧
      (d.conj e).value A (look R.columns row) = some (.bool (a && b)) := by
    intro row hrow
    obtain ⟨a, ha⟩ := hd row hrow
    obtain ⟨b, hb⟩ := he row hrow
    exact ⟨a, b, ha, hb, by simp [Expr.conj, Expr.value, ha, hb, A.both]⟩
  refine ⟨restrict_eq_some.mpr ⟨⟨?_, fun row hrow ↦ ?_⟩, ?_⟩, fun row hrow ↦ ?_⟩
  · intro n hn
    simp only [Expr.conj, Expr.columns, List.mem_append] at hn
    exact hn.elim (hdc n) (hec n)
  · obtain ⟨a, b, -, -, hab⟩ := hconj row hrow
    simp [hab]
  · simp only [List.filter_filter, mk.injEq, true_and]
    refine List.filter_congr fun row hrow ↦ ?_
    obtain ⟨a, b, ha, hb, hab⟩ := hconj row hrow
    cases a <;> cases b <;> simp [ha, hb, hab]
  · obtain ⟨a, b, -, -, hab⟩ := hconj row hrow
    exact ⟨_, hab⟩

end Relation

end Gridplan
