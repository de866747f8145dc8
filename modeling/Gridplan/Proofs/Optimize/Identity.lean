import Gridplan.Proofs.Layout.Headings
import Gridplan.Proofs.Optimize.Leaves
import Gridplan.Proofs.Optimize.Normal
import Gridplan.Proofs.Optimize.Sorts

namespace Gridplan

namespace Relation

variable {A : Algebra} {R S : Relation} {names : List String} {e : Expr} {c : Option Expr}

/-- Whether every row has one cell for each column, the same for columns of one name. -/
def IsProper (R : Relation) : Prop := ∀ row ∈ R.rows, R.columns.map (cell R.columns row) = row

def Satisfies (A : Algebra) (R : Relation) (e : Expr) : Prop :=
  (∀ n ∈ e.columns, n ∈ R.columns) ∧
    ∀ row ∈ R.rows, e.value A (look R.columns row) = some (.bool true)

instance : Decidable R.IsProper := inferInstanceAs (Decidable (∀ row ∈ R.rows, _))

instance : Decidable (R.Satisfies A e) := inferInstanceAs (Decidable (_ ∧ _))

theorem project_eq_self_iff : R.project names = some R ↔ R.columns = names ∧ R.IsProper := by
  rw [project_eq_some]
  constructor
  · rintro ⟨-, heq⟩
    obtain ⟨columns, rows⟩ := R
    obtain ⟨rfl, hrows⟩ := mk.inj heq
    refine ⟨rfl, fun row hrow ↦ ?_⟩
    exact List.map_inj_left.mp (hrows.symm.trans (List.map_id rows).symm) row hrow
  · rintro ⟨rfl, hproper⟩
    refine ⟨fun n hn ↦ hn, ?_⟩
    rw [List.map_congr_left hproper, List.map_id']

theorem restrict_eq_self_iff : R.restrict A e = some R ↔ R.Satisfies A e := by
  rw [restrict_eq_some]
  constructor
  · rintro ⟨⟨hcols, -⟩, heq⟩
    refine ⟨hcols, fun row hrow ↦ ?_⟩
    have hrows := congrArg rows heq
    exact of_decide_eq_true (List.filter_eq_self.mp hrows.symm row hrow)
  · rintro ⟨hcols, htrue⟩
    refine ⟨⟨hcols, fun row hrow ↦ by rw [htrue row hrow]; rfl⟩, ?_⟩
    rw [List.filter_eq_self.mpr fun row hrow ↦ decide_eq_true (htrue row hrow)]

theorem restrictIf_eq_self_iff : R.restrictIf A c = some R ↔ ∀ e ∈ c, R.Satisfies A e := by
  cases c with
  | none => simp [restrictIf]
  | some e => simp [restrictIf, restrict_eq_self_iff]

theorem restrictIf_project_iff : (R.restrictIf A c).bind (project names) = some R ↔
    R.columns = names ∧ R.IsProper ∧ ∀ e ∈ c, R.Satisfies A e := by
  rw [← restrictIf_eq_self_iff, ← and_assoc, ← project_eq_self_iff, Option.bind_eq_some_iff]
  constructor
  · rintro ⟨T, hT, hproj⟩
    have hlen : T.rows.length = R.rows.length := by
      obtain ⟨-, heq⟩ := project_eq_some.mp hproj
      rw [congrArg rows heq, List.length_map]
    have hrows : T.rows = R.rows := (restrictIf_rows hT).eq_of_length hlen
    have hcols := restrictIf_columns hT
    obtain ⟨columns, rows⟩ := T
    obtain rfl : columns = R.columns := hcols
    obtain rfl : rows = R.rows := hrows
    exact ⟨hproj, hT⟩
  · rintro ⟨hproj, hself⟩
    exact ⟨R, hself, hproj⟩

end Relation

/-- Whether the operator has columns that can be told from its parameters and those of its input, and
the guess tells them. -/
def Operator.isFrank : Operator → Bool
  | .source _ schema _ => schema.isSome
  | .select .. | .groupBy .. | .aggregate .. | .filter .. | .sort .. | .limit ..
  | .withColumn .. => true
  | _ => false

def Interpretation.IsLabelled (I : Interpretation) : Prop :=
  ∀ op Rs R, op.isFrank = true → I.other op Rs = some R → R.columns = op.columns (Rs.map (·.columns))

namespace Plan

variable {I : Interpretation} {m : Option Nat} {op : Operator} {is : List Plan} {p x : Plan}
  {R : Relation} {names : List String} {c : Option Expr}

theorem meaning_projection : meaning I (.node m (.select names c) [x]) =
    (x.meaning I).bind fun R ↦
      (R.restrictIf I.toAlgebra (c.map Expr.read)).bind (Relation.project names) := by
  rw [meaning_one]
  cases c <;> rfl

theorem columns_eq_guess (hI : I.IsLabelled) (hb : p.Built)
    (hf : ∀ n ∈ p.traced, n.op.isFrank = true) (hR : p.meaning I = some R) :
    R.columns = p.guess := by
  induction p generalizing R with
  | node m op is ih =>
    obtain ⟨⟨ht, ha⟩, his⟩ := built_node.mp hb
    have hlen := ha.length
    have hop : op.isFrank = true := hf _ (mem_traced_self _)
    -- the guess of an operator that states no columns is that of its input
    have hbelow : ∀ x, is = [x] → op.isStating = false → ∀ S, x.meaning I = some S →
        S.columns = x.guess := by
      rintro x rfl hs S hS
      refine ih x (by simp) (his x (by simp)) (fun n hn ↦ hf n ?_) hS
      rw [traced_one hs]
      exact List.mem_cons_of_mem _ hn
    rw [guess_node]
    cases op with try obtain ⟨x, rfl⟩ := List.length_eq_one_iff.mp hlen
    | loose | bare => cases ht
    | join | union | pivot | melt | window => cases hop
    | source id schema data =>
      obtain rfl : is = [] := ha
      obtain ⟨schema, rfl⟩ := Option.isSome_iff_exists.mp hop
      exact I.source_columns hR
    | select names c =>
      rw [meaning_projection] at hR
      obtain ⟨S, -, hR⟩ := Option.bind_eq_some_iff.mp hR
      obtain ⟨T, -, hR⟩ := Option.bind_eq_some_iff.mp hR
      obtain ⟨-, rfl⟩ := Relation.project_eq_some.mp hR
      rfl
    | filter e =>
      obtain ⟨S, hS, hR⟩ := meaning_filter.mp hR
      obtain ⟨-, rfl⟩ := Relation.restrict_eq_some.mp hR
      exact hbelow x rfl rfl S hS
    | groupBy | aggregate =>
      rw [meaning_one] at hR
      obtain ⟨S, -, hR⟩ := Option.bind_eq_some_iff.mp hR
      exact hI _ _ _ rfl hR
    | sort | limit =>
      rw [meaning_one] at hR
      obtain ⟨S, hS, hR⟩ := Option.bind_eq_some_iff.mp hR
      exact (hI _ _ _ rfl hR).trans (hbelow x rfl rfl S hS)
    | withColumn name e =>
      rw [meaning_one] at hR
      obtain ⟨S, hS, hR⟩ := Option.bind_eq_some_iff.mp hR
      rw [hI _ _ _ rfl hR]
      exact congrArg (Layout.withName · name) (hbelow x rfl rfl S hS)

end Plan

namespace Optimize

open Plan

variable {I : Interpretation} {m : Option Nat} {x y : Plan} {R : Relation} {names : List String}
  {c : Option Expr}

theorem simplify_select (hx : x.Built) (hn : names ≠ []) :
    simplify (.select names c) [x] = .ok (if x.guess = names then some x else none) := by
  have htruthy : (Datum.ofTexts x.guess).truthy = true ↔ x.guess ≠ [] := Datum.truthy_list_map
  have hsame := Datum.same_ofTexts (s := names) (t := x.guess)
  simp only [simplify, heading_eq hx, Outcome.ok_bind, Bool.and_eq_true, htruthy, hsame]
  by_cases h : x.guess = names
  · rw [if_pos ⟨h ▸ hn, h.symm⟩, if_pos h]
    rfl
  · rw [if_neg fun hboth ↦ h hboth.2.symm, if_neg h]
    rfl

/-- A projection is replaced by its input exactly when it names the columns that are guessed for the
input. -/
theorem select_dropped_iff (hb : (Plan.node m (.select names c) [y]).Built)
    (hy : pass simplify y = .ok x) :
    pass simplify (.node m (.select names c) [y]) = .ok x ↔ x.guess = names := by
  have hyb : y.Built := (built_node.mp hb).2 y (by simp)
  have hx := built_of_pass (by simp [rules]) hyb hy
  have hn : names ≠ [] := (built_node.mp hb).1.2.1
  constructor
  · intro h
    by_contra hne
    obtain ⟨r, hstep, hr⟩ := pass_eq_ok.mp h
    obtain ⟨s, hys, hs⟩ := pass_eq_ok.mp hy
    have hafter : [y].map (after simplify) = [x] := by simp [after_eq hys, hs]
    -- a projection that stays has more nodes than what is left of its input
    rcases (step_cases hstep).2 with ⟨q, hq, -⟩ | ⟨-, -, rfl⟩ | ⟨q, -, hq, rfl⟩
    · rw [hafter, simplify_select hx hn, if_neg hne] at hq
      cases hq
    · have hsize := (step_preserves preserved_trims (by simp [rules]) hyb hys).2.size
      rw [hs, ← hr, Option.getD_none, size_node] at hsize
      simp at hsize
    · rw [hafter] at hq
      have hq := (built_of_withInputs hb (by simp) (by simpa using hx) hq).1
      have hnodes : q.fold nodes = x.fold nodes + 1 := by
        simp [hq, fresh, fold_node, nodes, fold_filed]
      rw [← hr] at hnodes
      simp at hnodes
  · intro h
    exact pass_of_rule hy (by rw [simplify_select hx hn, if_pos h])

/-- A projection is replaced by its input exactly when it names the columns that are guessed for the
input. It was without effect there exactly when the relation of the input has these columns, its rows
have one cell for each of them, and the condition of the projection, if it has one, is true in all
rows. The relation has the guessed columns as long as the guess comes from frank operators. -/
theorem dropped_projection_meaning (hb : (Plan.node m (.select names c) [y]).Built)
    (hy : pass simplify y = .ok x) :
    (pass simplify (.node m (.select names c) [y]) = .ok x ↔ x.guess = names) ∧
      (x.guess = names → ∀ R, x.meaning I = some R →
        (meaning I (.node m (.select names c) [x]) = some R ↔
          R.columns = x.guess ∧ R.IsProper ∧ ∀ e ∈ c, R.Satisfies I.toAlgebra e.read) ∧
        (I.IsLabelled → (∀ n ∈ x.traced, n.op.isFrank = true) → R.columns = x.guess)) := by
  have hx := built_of_pass (by simp [rules]) ((built_node.mp hb).2 y (by simp)) hy
  refine ⟨select_dropped_iff hb hy, fun hguess R hR ↦ ⟨?_, fun hI hf ↦ ?_⟩⟩
  · rw [meaning_projection, hR, Option.bind_some, Relation.restrictIf_project_iff, hguess]
    simp
  · exact columns_eq_guess hI hx hf hR

def still : Operator → List Relation → Option Relation
  | .sort .., [R] | .limit .., [R] => some R
  | _, _ => none

def meager : Interpretation where
  toAlgebra := sample.toAlgebra
  source := sample.source
  source_columns := sample.source_columns
  other := still

theorem isLabelled_meager : meager.IsLabelled := by
  intro op Rs R _ h
  have h : still op Rs = some R := h
  unfold still at h
  split at h
  · exact congrArg Relation.columns (Option.some.inj h).symm
  · exact congrArg Relation.columns (Option.some.inj h).symm
  · cases h

def entire (n : Int) (p : Plan) : Plan := .fresh (.select ["a", "b"] (some (exceeds n))) [p]

theorem dropped_projection_meaning_entire : (entire 0 sortedSource).Built ∧
    pass simplify (entire 0 sortedSource) = .ok sortedSource ∧
    ∃ R, sortedSource.meaning meager = some R ∧
      (entire 0 sortedSource).meaning meager = some R ∧ R.columns = ["a", "b"] := by
  have hb : (entire 0 sortedSource).Built := by
    simp [built_node, entire, sortedSource, exceeds, fresh, Operator.isTyped, Operator.Accepts,
      Offers, schema?]
  have hfrank : ∀ n ∈ sortedSource.traced, n.op.isFrank = true := by decide
  obtain ⟨hdrop, hmeaning⟩ := dropped_projection_meaning (I := meager) hb
    (show pass simplify sortedSource = .ok sortedSource from rfl)
  obtain ⟨hiff, hcolumns⟩ := hmeaning rfl _ rfl
  exact ⟨hb, hdrop.mpr rfl, _, rfl, hiff.mpr ⟨rfl, by decide, by decide⟩,
    hcolumns isLabelled_meager hfrank⟩

def filteredSource : Plan :=
  .fresh (.select ["a", "b"] none) [.fresh (.filter (exceeds 1))
    [.fresh (.source "t" (some ["a", "b"]) none) []]]

/-- A filter goes into the projection above it, and is lost when the projection is dropped. -/
theorem dropped_projection_filter : filteredSource.Built ∧
    filteredSource.meaning sample =
      some ⟨["a", "b"], [[.int 2, .int 20], [.int 3, .int 30]]⟩ ∧
    ∃ q, filteredSource.optimize = .ok q ∧ q.meaning sample =
      some ⟨["a", "b"], [[.int 1, .int 10], [.int 2, .int 20], [.int 3, .int 30]]⟩ := by
  refine ⟨?_, rfl, _, rfl, rfl⟩
  simp [built_node, filteredSource, exceeds, fresh, Operator.isTyped, Operator.Accepts, Offers,
    schema?, Expr.isFilled, Expr.columns]

end Optimize

end Gridplan
