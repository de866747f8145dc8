import Gridplan.Proofs.Optimize.Filters

namespace Gridplan.Optimize

open Plan

variable {I : Interpretation} {p : Plan} {R : Relation}

/-- Whether the passes have to store a condition with a record in it: one that mixes stands below an
operator other than a filter, or at the root while projections are merged below it. -/
def blocked (p : Plan) : Bool :=
  p.any (above mixes) || p.mixes && p.any (above doubles)

theorem of_mixes (h : p.mixes = true) : p.kind = .filter ∧ p.base.kind ≠ .select := by
  unfold mixes at h
  split at h
  · simp only [Bool.and_eq_true, bne_iff_ne] at h
    exact ⟨rfl, h.1.2⟩
  · cases h

theorem step_merge_mixed {m : Option Nat} {e : Expr} {x : Plan}
    (hp : (Plan.node m (.filter e) [x]).Plain)
    (hs : (Plan.node m (.filter e) [x]).isStorable = false) (hx : Merged I x) :
    step mergeProjections (.node m (.filter e) [x]) =
      if x.any nested then .error .member else .ok none := by
  have hps := (plain_node.mp hp).2
  have hin : ∀ q ∈ [x], Merged I q := by simpa using hx
  have hbuilt : ∀ q ∈ [after mergeProjections x], q.Built := by
    simpa using hx.stands.plain.built
  rw [step_node (fun q hq ↦ (hin q hq).finishes) fun q hq ↦ (hin q hq).same (hps q hq),
    mergeProjections_eq_none rfl, Outcome.ok_bind, ← hx.changes]
  simp only [List.all_cons, List.all_nil, Bool.and_true, List.map_cons, List.map_nil,
    withInputs_error hp.built hbuilt (.inl hs), Outcome.error_bind, Outcome.pure_eq]
  cases changed mergeProjections x <;> rfl

/-- Moving filters and then merging projections fails on a regular plan exactly when the plan is
blocked, and otherwise gives a plan with the same columns and the same rows in the same order. -/
theorem pushdown_meaning (hr : Regular I p) (hm : p.meaning I = some R) :
    (blocked p = true → (pass pushFilters p >>= pass mergeProjections) = .error .member) ∧
      (blocked p = false →
        ∃ q, (pass pushFilters p >>= pass mergeProjections) = .ok q ∧ q.meaning I = some R) := by
  obtain ⟨hstuck, hpushed⟩ := pushed hr hm
  cases ha : p.any (above mixes) with
  | true =>
    have hpass : pass pushFilters p = .error .member := by
      rw [pass, hstuck ha, Outcome.error_bind]
    refine ⟨fun _ ↦ by rw [hpass, Outcome.error_bind], fun h ↦ ?_⟩
    rw [blocked, ha, Bool.true_or] at h
    cases h
  | false =>
    have hp := hpushed ha
    obtain ⟨r, hstep⟩ := hp.finishes
    rw [pass_eq_after hstep, Outcome.ok_bind, blocked, ha, Bool.false_or]
    cases hx : p.mixes with
    | false =>
      have hs := hp.stands hx
      have hmerged := merged hs.plain hs.storable (hs.meaning.trans hm)
      obtain ⟨r', hstep'⟩ := hmerged.finishes
      refine ⟨fun h ↦ absurd h Bool.false_ne_true, fun _ ↦ ⟨_, pass_eq_after hstep', ?_⟩⟩
      rw [hmerged.stands.meaning, hs.meaning, hm]
    | true =>
      obtain ⟨hkind, hbase⟩ := of_mixes hx
      obtain ⟨m, e, x, S, hafter, hstore, -, hS, -, -⟩ := hp.run hkind hbase
      have hplain := hp.plain
      have hmixed := hp.storable
      have hbelow := hp.below
      have hmeaning := hp.meaning.trans hm
      rw [hafter] at hplain hmixed hbelow hmeaning
      rw [hx] at hmixed
      have hmerged := merged ((plain_node.mp hplain).2 x (by simp)) hstore hS
      have hdoubles : x.any nested = p.any (above doubles) := by
        rw [← hbelow]
        simp [Plan.inputs]
      rw [hafter, pass, step_merge_mixed hplain hmixed hmerged, hdoubles, Bool.true_and]
      cases p.any (above doubles) with
      | true => exact ⟨fun _ ↦ rfl, fun h ↦ absurd h.symm Bool.false_ne_true⟩
      | false => exact ⟨fun h ↦ absurd h Bool.false_ne_true, fun _ ↦ ⟨_, rfl, hmeaning⟩⟩

/-- One source of two columns, comparison of whole numbers, and other operators without effect. -/
def sample : Interpretation where
  binary
    | "and", .bool a, .bool b => some (.bool (a && b))
    | ">", .int a, .int b => some (.bool (b < a))
    | _, _, _ => none
  unary _ _ := none
  call _ _ := none
  both _ _ := rfl
  source _ schema := some ⟨schema.getD ["a", "b"], [[.int 1, .int 10], [.int 2, .int 20],
    [.int 3, .int 30]]⟩
  source_columns h := by cases h; rfl
  other _ Rs := Rs.head?

def exceeding (column : String) (n : Int) (p : Plan) : Plan :=
  .fresh (.filter (.binary ">" (.column column) (.literal (.int n)))) [p]

def layered : Plan :=
  .fresh (.limit 5 .head) [exceeding "a" 1 (exceeding "a" 0 (.fresh (.select ["a"] none)
    [exceeding "b" 10 (.fresh (.source "t" (some ["a", "b"]) none) [])]))]

theorem regular_layered : Regular sample layered := by
  refine ⟨?_, ?_, ?_⟩
  · simp [Plain, All, AllList, layered, exceeding, fresh, Operator.isPlain, Operator.isTyped,
      Operator.Accepts, Offers, schema?, Expr.isFilled, Expr.columns]
  · simp [All, AllList, layered, exceeding, fresh, Operator.isProper, Operator.isStorable,
      Expr.isProper]
  · simp only [All, AllList, layered, exceeding, fresh, List.forall_mem_singleton, and_true]
    refine ⟨?_, ?_, ?_, ?_, ?_, ?_⟩ <;> rintro e ⟨⟩
    all_goals
      rintro R ⟨⟩
      decide

theorem pushdown_meaning_layered :
    Regular sample layered ∧ layered.meaning sample = some ⟨["a"], [[.int 2], [.int 3]]⟩ ∧
      ∃ q, (pass pushFilters layered >>= pass mergeProjections) = .ok q ∧
        q.meaning sample = some ⟨["a"], [[.int 2], [.int 3]]⟩ :=
  ⟨regular_layered, rfl, (pushdown_meaning regular_layered rfl).2 rfl⟩

def trapped : Plan :=
  .fresh (.limit 5 .head) [exceeding "a" 1 (exceeding "a" 0 (.fresh (.sort [⟨"a", .asc⟩] none none)
    [exceeding "a" 0 (.fresh (.select ["a"] none)
      [.fresh (.source "t" (some ["a", "b"]) none) []])]))]

/-- A regular plan that computes a relation and that the passes do not get through. -/
theorem pushdown_trapped :
    Regular sample trapped ∧ trapped.meaning sample = some ⟨["a"], [[.int 2], [.int 3]]⟩ ∧
      (pass pushFilters trapped >>= pass mergeProjections) = .error .member := by
  refine ⟨⟨?_, ?_, ?_⟩, rfl, rfl⟩
  · simp [Plain, All, AllList, trapped, exceeding, fresh, Operator.isPlain, Operator.isTyped,
      Operator.Accepts, Offers, schema?, Expr.isFilled, Expr.columns]
  · simp [All, AllList, trapped, exceeding, fresh, Operator.isProper, Operator.isStorable,
      Expr.isProper]
  · simp only [All, AllList, trapped, exceeding, fresh, List.forall_mem_singleton, and_true]
    refine ⟨?_, ?_, ?_, ?_, ?_, ?_, ?_⟩ <;> rintro e ⟨⟩
    all_goals
      rintro R ⟨⟩
      decide

end Gridplan.Optimize
