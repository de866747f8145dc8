import Gridplan.Frame.Rows
import Gridplan.Proofs.Formula.Calls
import Gridplan.Proofs.Formula.Cells

namespace Gridplan.Formula

/-- A spreadsheet engine: whether a cell meets a sign in front of a value, with no sign for
equality, and what a function makes of cells. -/
structure Engine where
  meets : String → Datum → Datum → Bool
  aggregate : String → List Datum → Datum

namespace Term

variable (contents : Cell → Datum)

def valuesIn : Term → Option (List Datum)
  | .ref r => some (r.columns.flatten.map contents)
  | .call "ROW" [.ref r] =>
    some ((between r.first.number (r.last.getD r.first).number).map fun (n : Nat) ↦ .int n)
  | _ => none

def valueIn (t : Term) : Option Datum :=
  match t.valuesIn contents with
  | some [d] => some d
  | _ => none

def criterionIn : Term → Option (String × Datum)
  | .binary "&" (.quoted sign) t => (t.valueIn contents).map (sign, ·)
  | t => (t.valueIn contents).map ("", ·)

end Term

namespace Engine

variable (E : Engine) (contents : Cell → Datum)

def tests (p : Term × Term) : Option (List Bool) := do
  let values ← p.1.valuesIn contents
  let criterion ← p.2.criterionIn contents
  return values.map (E.meets criterion.1 criterion.2)

/-- The rows that meet all of some criteria, which are about ranges of the same height. -/
def matching (ps : List (Term × Term)) : Option (List Nat) := do
  let columns ← ps.mapM (E.tests contents)
  let height ← columns.head?.map List.length
  if columns.all (·.length = height) then
    some ((List.range height).filter fun i ↦ columns.all fun column ↦ (column[i]?).getD false)
  else none

def value : Term → Option Datum
  | .call f args =>
    if f = "COUNTIFS" then do
      let rows ← E.matching contents (← pairs? args)
      return .int rows.length
    else if f ∈ aggregators then do
      let values ← (← args.head?).valuesIn contents
      let rows ← E.matching contents (← pairs? args.tail)
      return E.aggregate f (rows.filterMap (values[·]?))
    else none
  | .binary op l r => do
    match op, ← value l, ← value r with
    | "+", .int m, .int n => some (.int (m + n))
    | _, _, _ => none
  | _ => none

/-- Whether criteria are met by the rows that pass some tests, each by those that pass its own. -/
def Tested (n : Nat) (ps : List (Term × Term)) (passes : List (Nat → Bool)) : Prop :=
  List.Forall₂ (fun p pass ↦ E.tests contents p = some ((List.range n).map pass)) ps passes

variable {E contents} {n : Nat} {ps : List (Term × Term)} {passes : List (Nat → Bool)}

theorem Tested.append {qs : List (Term × Term)} {more : List (Nat → Bool)}
    (h : E.Tested contents n ps passes) (h' : E.Tested contents n qs more) :
    E.Tested contents n (ps ++ qs) (passes ++ more) := List.rel_append h h'

theorem Tested.matching (h : E.Tested contents n ps passes) (hne : passes ≠ []) :
    E.matching contents ps = some ((List.range n).filter fun i ↦ passes.all (· i)) := by
  have hcolumns : ps.mapM (E.tests contents) =
      some (passes.map fun pass ↦ (List.range n).map pass) := by
    clear hne
    induction h with
    | nil => rfl
    | cons hp _ ih =>
      rw [List.mapM_cons, hp, ih]
      rfl
  have hhead : (passes.map fun pass ↦ (List.range n).map pass).head?.map List.length = some n := by
    cases passes with
    | nil => exact absurd rfl hne
    | cons pass passes => simp
  have hlength : ((passes.map fun pass ↦ (List.range n).map pass).all (·.length = n)) = true := by
    simp
  rw [Engine.matching, hcolumns, Option.bind_eq_bind, Option.bind_some, hhead, Option.bind_eq_bind,
    Option.bind_some, if_pos hlength]
  refine congrArg some (List.filter_congr fun i hi ↦ ?_)
  have hi := List.mem_range.mp hi
  simp [List.all_map, Function.comp_def, hi]

theorem Tested.count (h : E.Tested contents n ps passes) (hne : passes ≠ []) :
    E.value contents (.call "COUNTIFS" (pairArgs ps)) =
      some (.int ((List.range n).countP fun i ↦ passes.all (· i))) := by
  rw [value, if_pos rfl, pairs?_pairArgs, Option.bind_eq_bind, Option.bind_some, h.matching hne,
    List.countP_eq_length_filter]
  rfl

theorem Tested.aggregate (h : E.Tested contents n ps passes) (hne : passes ≠ []) {f : String}
    (hf : f ∈ aggregators) {t : Term} {values : Nat → Datum}
    (ht : t.valuesIn contents = some ((List.range n).map values)) :
    E.value contents (.call f (t :: pairArgs ps)) =
      some (E.aggregate f (((List.range n).filter fun i ↦ passes.all (· i)).map values)) := by
  have hcount : f ≠ "COUNTIFS" := by
    rintro rfl
    exact absurd hf (by decide)
  have hvalues : ∀ rows : List Nat, (∀ i ∈ rows, i < n) →
      rows.filterMap (((List.range n).map values)[·]?) = rows.map values := by
    intro rows hrows
    rw [← List.filterMap_eq_map]
    refine List.filterMap_congr fun i hi ↦ ?_
    simp [hrows i hi]
  rw [value, if_neg hcount, if_pos hf, List.head?_cons, List.tail_cons, Option.bind_eq_bind,
    Option.bind_some, ht, Option.bind_eq_bind, Option.bind_some, pairs?_pairArgs,
    Option.bind_eq_bind, Option.bind_some, h.matching hne, Option.bind_eq_bind, Option.bind_some,
    hvalues _ fun i hi ↦ List.mem_range.mp (List.mem_of_mem_filter hi)]
  rfl

theorem value_plus {l r : Term} {m k : Int} (hl : E.value contents l = some (.int m))
    (hr : E.value contents r = some (.int k)) :
    E.value contents (.binary "+" l r) = some (.int (m + k)) := by
  rw [value, hl, hr]
  rfl

/-- Whether equality of cells is that of their values. -/
def Equates (E : Engine) (xs : List Datum) : Prop :=
  ∀ v ∈ xs, ∀ c ∈ xs, E.meets "" v c = c.same v

/-- Whether signs in front of a value compare cells with it as they are ordered. -/
structure Orders (E : Engine) (xs : List Datum) : Prop where
  lt : ∀ v ∈ xs, ∀ c ∈ xs, E.meets "<" v c = (c.cellOrder v == .lt)
  le : ∀ v ∈ xs, ∀ c ∈ xs, E.meets "<=" v c = (c.cellOrder v != .gt)
  gt : ∀ v ∈ xs, ∀ c ∈ xs, E.meets ">" v c = (c.cellOrder v == .gt)
  ge : ∀ v ∈ xs, ∀ c ∈ xs, E.meets ">=" v c = (c.cellOrder v != .lt)

end Engine

end Gridplan.Formula
