import Gridplan.Proofs.Optimize.Changes
import Gridplan.Proofs.Optimize.Projections

namespace Gridplan

namespace Plan

variable {p : Plan}

/-- Whether a filter stands over a filter, or over a projection that keeps its columns. -/
def sinks : Operator → List Plan → Bool
  | .filter e, [.node _ (.select names _) _] => e.references.all names.contains
  | .filter _, [.node _ (.filter _) _] => true
  | _, _ => false

/-- Whether a limit stands over a sort, or a sort or projection over a filter. -/
def fuses : Operator → List Plan → Bool
  | .limit _ _, [.node _ (.sort _ _ _) _] => true
  | .sort _ _ _, [.node _ (.filter _) _] => true
  | .select _ _, [.node _ (.filter _) _] => true
  | _, _ => false

/-- Whether a projection seems to keep all columns, a filter is always true or a sort stands over a
sort. -/
def idles : Operator → List Plan → Bool
  | .select names _, [x] =>
    x.heading.toOption.any fun d ↦ d.truthy && (Datum.ofTexts names).same d
  | .filter (.literal (.bool true)), [_] => true
  | .sort _ _ _, [.node _ (.sort _ _ _) _] => true
  | _, _ => false

def redexes : List (Operator → List Plan → Bool) := [sinks, nested, fuses, idles]

def reducible (op : Operator) (is : List Plan) : Bool := redexes.any fun test ↦ test op is

theorem any_reducible_eq_false :
    p.any reducible = false ↔ ∀ test ∈ redexes, p.any test = false := by
  simp [any_eq_false_iff, reducible, redexes, all_and]

end Plan

namespace Optimize

open Plan

variable {rule : Rule} {test : Operator → List Plan → Bool} {m : Option Nat} {op : Operator}
  {is : List Plan} {p q r : Plan} {s : Option Plan}

/-- Whether a test tells to which nodes a rule applies. -/
def Spots (test : Operator → List Plan → Bool) (rule : Rule) : Prop :=
  ∀ m op is s, (Plan.node m op is).Built → rule op is = .ok s → s.isSome = test op is

theorem isSome_of_bind {x : Outcome Plan} (h : (x >>= fun p ↦ pure (some p)) = .ok s) :
    s.isSome = true := by
  obtain ⟨p, _, h⟩ := Outcome.bind_eq_ok.mp h
  rw [← Except.ok.inj h]
  rfl

theorem spots_sinks : Spots sinks pushFilters := by
  intro m op is s hp h
  unfold pushFilters at h
  split at h
  · next e m' names c inputs =>
    obtain ⟨x, rfl, -⟩ := one_input (List.forall_mem_singleton.mp (built_node.mp hp).2) rfl
    rw [sinks]
    split at h
    · next hc =>
      obtain ⟨below, _, h⟩ := Outcome.bind_eq_ok.mp h
      rw [isSome_of_bind h]
      simp_all
    · next hc =>
      obtain rfl := Except.ok.inj h
      simpa using hc
  · exact isSome_of_bind h
  · obtain rfl := Except.ok.inj h
    rw [sinks]
    · rfl
    all_goals assumption

theorem eq_select (hp : p.Built) (hk : p.kind = .select) :
    ∃ m names c x, p = .node m (.select names c) [x] := by
  obtain ⟨m, op, is⟩ := p
  cases op with
  | select names c =>
    obtain ⟨x, rfl, -⟩ := one_input hp rfl
    exact ⟨m, names, c, x, rfl⟩
  | loose => cases isTyped_of_built hp
  | _ => cases hk

theorem spots_nested : Spots nested mergeProjections := by
  intro m op is s hp h
  unfold mergeProjections at h
  split at h
  · exact isSome_of_bind h
  · next hne =>
    obtain rfl := Except.ok.inj h
    -- only a projection over a projection passes the test
    by_contra hn
    obtain ⟨hk, x, hx, hxk⟩ : op.kind = .select ∧ ∃ x ∈ is, x.kind = .select := by
      simpa [nested] using hn
    obtain ⟨_, names, c, y, heq⟩ := eq_select hp hk
    obtain ⟨rfl, rfl, rfl⟩ := Plan.node.inj heq
    obtain rfl := List.mem_singleton.mp hx
    obtain ⟨m', names', c', z, rfl⟩ := eq_select ((built_node.mp hp).2 _ hx) hxk
    exact hne _ _ _ _ _ _ rfl rfl

theorem spots_fuses : Spots fuses fuse := by
  intro m op is s hp h
  unfold fuse at h
  split at h
  · exact isSome_of_bind h
  · exact isSome_of_bind h
  · exact isSome_of_bind h
  · cases isTyped_of_built hp
  · cases isTyped_of_built (List.forall_mem_singleton.mp (built_node.mp hp).2)
  · obtain rfl := Except.ok.inj h
    rw [fuses]
    · rfl
    all_goals assumption

theorem spots_idles : Spots idles simplify := by
  intro m op is s hp h
  unfold simplify at h
  split at h
  · next names c x =>
    obtain ⟨d, hd, h⟩ := Outcome.bind_eq_ok.mp h
    rw [idles, hd]
    split at h
    · next hd' =>
      rw [← Except.ok.inj h]
      simpa [Except.toOption] using hd'
    · next hd' =>
      rw [← Except.ok.inj h]
      simpa [Except.toOption] using hd'
  · obtain rfl := Except.ok.inj h
    rfl
  · exact isSome_of_bind h
  · cases isTyped_of_built hp
  · cases isTyped_of_built (List.forall_mem_singleton.mp (built_node.mp hp).2)
  · obtain rfl := Except.ok.inj h
    rw [idles]
    · rfl
    all_goals assumption

theorem spots_rules : List.Forall₂ Spots redexes rules :=
  .cons spots_sinks (.cons spots_nested (.cons spots_fuses (.cons spots_idles .nil)))

theorem step_eq_none_iff_any (hr : rule ∈ rules) (ht : Spots test rule) (hp : p.Built)
    (h : step rule p = .ok s) : s = none ↔ p.any test = false := by
  induction p generalizing s with
  | node m op is ih =>
    obtain ⟨hsteps, hcases⟩ := step_cases h
    have his := (built_node.mp hp).2
    have hin : ∀ i ∈ is, changed rule i = none ↔ i.any test = false := by
      intro i hi
      obtain ⟨t, hi'⟩ := hsteps i hi
      rw [changed, hi']
      exact ih i hi (his i hi) hi'
    have hsame : (∀ i ∈ is, changed rule i = none) → is.map (after rule) = is := by
      intro hnone
      refine (List.map_congr_left fun i hi ↦ ?_).trans (List.map_id' is)
      rw [after, hnone i hi]
      rfl
    rw [any_node, Bool.or_eq_false_iff, List.any_eq_false]
    simp only [Bool.not_eq_true]
    constructor
    · rintro rfl
      rcases hcases with ⟨q, -, hsome⟩ | ⟨hrule, hunch, -⟩ | ⟨q, -, -, hsome⟩
      · cases hsome
      · have hnone := changed_of_unchanged hr his hsteps hunch
        rw [hsame hnone] at hrule
        exact ⟨(ht m op is none hp hrule).symm, fun i hi ↦ (hin i hi).mp (hnone i hi)⟩
      · cases hsome
    · rintro ⟨hop, hbelow⟩
      have hnone : ∀ i ∈ is, changed rule i = none := fun i hi ↦ (hin i hi).mpr (hbelow i hi)
      rcases hcases with ⟨q, hrule, -⟩ | ⟨-, -, hs⟩ | ⟨q, ⟨i, hi, j, hj⟩, -, -⟩
      · rw [hsame hnone] at hrule
        have := ht m op is (some q) hp hrule
        rw [hop] at this
        cases this
      · exact hs
      · rw [hnone i hi] at hj
        cases hj

theorem passes_cases {rs : List Rule} (hrs : rs ⊆ rules) (hp : p.Built)
    (h : rs.foldlM (fun q rule ↦ pass rule q) p = .ok q) :
    (q = p ∧ ∀ rule ∈ rs, step rule p = .ok none) ∨
      (Lighter p q ∧ ∃ rule ∈ rs, ∃ r, step rule p = .ok (some r)) := by
  induction rs generalizing p with
  | nil =>
    obtain rfl := Except.ok.inj h
    exact .inl ⟨rfl, by simp⟩
  | cons rule rs ih =>
    obtain ⟨hr, hrs⟩ := List.cons_subset.mp hrs
    rw [List.foldlM_cons] at h
    obtain ⟨mid, hmid, h⟩ := Outcome.bind_eq_ok.mp h
    obtain ⟨s, hs, hret⟩ := Outcome.bind_eq_ok.mp hmid
    obtain rfl := Except.ok.inj hret
    cases s with
    | none =>
      rcases ih hrs hp h with ⟨rfl, hrest⟩ | ⟨hlight, rule', hmem, hfires⟩
      · exact .inl ⟨rfl, List.forall_mem_cons.mpr ⟨hs, hrest⟩⟩
      · exact .inr ⟨hlight, rule', List.mem_cons_of_mem _ hmem, hfires⟩
    | some mid =>
      have hlight := lighter_of_step hr hp hs
      have hb := (step_preserves preserved_kept hr hp hs).1
      refine .inr ⟨?_, rule, by simp, mid, hs⟩
      rcases ih hrs hb h with ⟨rfl, -⟩ | ⟨hrest, -⟩
      · exact hlight
      · exact hrest.of_le hlight.le

theorem optimize_cases (hp : p.Built) (h : p.optimize = .ok q) :
    (q = p ∧ p.any reducible = false) ∨ (Lighter p q ∧ p.any reducible = true) := by
  rcases passes_cases (List.Subset.refl rules) hp h with ⟨rfl, hnone⟩ | ⟨hlight, rule, hr, s, hs⟩
  · refine .inl ⟨rfl, any_reducible_eq_false.mpr fun test htest ↦ ?_⟩
    obtain ⟨rule, hr, hspots⟩ := exists_of_forall₂ spots_rules.flip htest
    exact (step_eq_none_iff_any hr hspots hp (hnone rule hr)).mp rfl
  · refine .inr ⟨hlight, ?_⟩
    obtain ⟨test, htest, hspots⟩ := exists_of_forall₂ spots_rules hr
    by_contra hnot
    have hnone := any_reducible_eq_false.mp (Bool.not_eq_true _ ▸ hnot) test htest
    cases (step_eq_none_iff_any hr hspots hp hs).mpr hnone

theorem isStorable_of_toDatum {d : Datum} (hp : p.Built) (h : p.toDatum = .ok d) :
    p.isStorable = true := by
  by_contra hs
  rw [toDatum_not_isStorable hp (Bool.not_eq_true _ ▸ hs)] at h
  cases h

theorem filed_eq_of_toDatum {d : Datum} (hp : p.Built) (hq : q.Built) (hpd : p.toDatum = .ok d)
    (hqd : q.toDatum = .ok d) : p.filed = q.filed := by
  obtain ⟨fs, hfs, hread⟩ := isRead_of_isStorable hp (isStorable_of_toDatum hp hpd)
  obtain ⟨gs, hgs, hread'⟩ := isRead_of_isStorable hq (isStorable_of_toDatum hq hqd)
  obtain rfl := Except.ok.inj (hfs.symm.trans hpd)
  obtain hrec := Except.ok.inj (hgs.symm.trans hqd)
  rw [hrec] at hread'
  exact Except.ok.inj ((hread _ le_rfl).symm.trans (hread' _ le_rfl))

/-- A second run of the passes gives a plan with the same record exactly when the first one has left
a plan that can be stored and in which no rule applies. -/
theorem optimize_optimize (hp : p.Built) (hq : p.optimize = .ok q) (hr : q.optimize = .ok r) :
    (∃ d, q.toDatum = .ok d ∧ r.toDatum = .ok d) ↔
      q.isStorable = true ∧ q.any reducible = false := by
  have hqb := (optimize_preserves preserved_kept hp hq).1
  have hrb := (optimize_preserves preserved_kept hqb hr).1
  constructor
  · rintro ⟨d, hqd, hrd⟩
    refine ⟨isStorable_of_toDatum hqb hqd, ?_⟩
    rcases optimize_cases hqb hr with ⟨-, hnone⟩ | ⟨hlight, -⟩
    · exact hnone
    · have hfold : r.fold load = q.fold load := by
        rw [← fold_filed, filed_eq_of_toDatum hrb hqb hrd hqd, fold_filed]
      cases hlight.fold_ne hfold
  · rintro ⟨hs, hnone⟩
    rcases optimize_cases hqb hr with ⟨rfl, -⟩ | ⟨-, hsome⟩
    · obtain ⟨fs, hfs, -⟩ := isRead_of_isStorable hqb hs
      exact ⟨_, hfs, hfs⟩
    · cases hnone.symm.trans hsome

def exceeds (n : Int) : Expr := .binary ">" (.column "a") (.literal (.int n))

def leaders : Plan :=
  .fresh (.limit 3 .head) [.fresh (.sort [⟨"a", .asc⟩] none none)
    [.fresh (.filter (exceeds 0)) [.fresh (.source "t" (some ["a"]) none) []]]]

theorem optimize_optimize_leaders : leaders.Built ∧ ∃ q r, leaders.optimize = .ok q ∧
    q.optimize = .ok r ∧ ∃ d, q.toDatum = .ok d ∧ r.toDatum = .ok d := by
  have hp : leaders.Built := by
    simp [built_node, leaders, exceeds, fresh, Operator.isTyped, Operator.Accepts, Offers,
      schema?, Expr.isFilled, Expr.columns]
  let q := Plan.fresh (.sort [⟨"a", .asc⟩] (some 3) (some (exceeds 0)))
    [.fresh (.source "t" (some ["a"]) none) []]
  have hq : leaders.optimize = .ok q := rfl
  have hr : q.optimize = .ok q := rfl
  exact ⟨hp, q, q, hq, hr, (optimize_optimize hp hq hr).mpr (by decide +kernel)⟩

def straddled : Plan :=
  .fresh (.filter (exceeds 0)) [.fresh (.select ["a"] none)
    [.fresh (.filter (exceeds 1)) [.fresh (.source "t" (some ["a", "b"]) none) []]]]

/-- The filter that goes below the projection in the first pass meets the other one there, and only
the second run of the passes brings them together. -/
theorem optimize_straddled : straddled.Built ∧ ∃ q r d e, straddled.optimize = .ok q ∧
    q.optimize = .ok r ∧ q.toDatum = .ok d ∧ r.toDatum = .ok e ∧ d ≠ e := by
  let source := Plan.fresh (.source "t" (some ["a", "b"]) none) []
  refine ⟨?_, .fresh (.select ["a"] (some (exceeds 0))) [.fresh (.filter (exceeds 1)) [source]],
    .fresh (.select ["a"] (some (.binary "and" (exceeds 0) (exceeds 1)))) [source], _, _, rfl, rfl,
    rfl, rfl, by decide +kernel⟩
  simp [built_node, straddled, exceeds, fresh, Operator.isTyped, Operator.Accepts, Offers,
    schema?, Expr.isFilled, Expr.columns]

end Optimize

end Gridplan
