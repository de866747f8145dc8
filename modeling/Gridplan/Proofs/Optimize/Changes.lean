import Gridplan.Proofs.Optimize.Passes

namespace Gridplan

namespace Plan

variable {m : Option Nat} {op : Operator} {is : List Plan} {p q r : Plan} {g : Plan → Plan}

/-- The number of projections, and the number of nodes and of pairs of a filter and a projection
somewhere below it, from those of the inputs. -/
def load (k : Kind) (below : List (Nat × Nat)) : Nat × Nat :=
  ((below.map (·.1)).sum + (k == .select).toNat,
    (below.map (·.2)).sum + (if k = .filter then (below.map (·.1)).sum else 0) + 1)

structure Lighter (p q : Plan) : Prop where
  le : q.fold load ≤ p.fold load
  lt : (q.fold load).2 < (p.fold load).2

theorem Lighter.of_le (h : q.fold load ≤ p.fold load) (h' : Lighter q r) : Lighter p r :=
  ⟨h'.le.trans h, h'.lt.trans_le h.2⟩

theorem Lighter.congr {q' : Plan} (h : Lighter p q) (hq : q'.fold load = q.fold load) :
    Lighter p q' := ⟨hq.le.trans h.le, hq ▸ h.lt⟩

theorem Lighter.fold_ne (h : Lighter p q) : q.fold load ≠ p.fold load :=
  fun heq ↦ h.lt.ne (congrArg Prod.snd heq)

theorem fold_load_map (h : ∀ i ∈ is, (g i).fold load ≤ i.fold load) :
    (node m op (is.map g)).fold load ≤ (node m op is).fold load := by
  have hselects := List.sum_le_sum fun i hi ↦ (h i hi).1
  have hloads := List.sum_le_sum fun i hi ↦ (h i hi).2
  simp only [fold_node, load, List.map_map, Function.comp_def]
  refine ⟨?_, ?_⟩
  · dsimp only
    omega
  · dsimp only
    split_ifs <;> omega

theorem Lighter.node (h : ∀ i ∈ is, (g i).fold load ≤ i.fold load)
    (hlt : ∃ i ∈ is, Lighter i (g i)) : Lighter (.node m op is) (.node m op (is.map g)) := by
  refine ⟨fold_load_map h, ?_⟩
  obtain ⟨i, hi, hlt⟩ := hlt
  have hselects := List.sum_le_sum fun i hi ↦ (h i hi).1
  have hloads := List.sum_lt_sum _ _ (fun i hi ↦ (h i hi).2) ⟨i, hi, hlt.lt⟩
  simp only [fold_node, load, List.map_map, Function.comp_def]
  split_ifs <;> omega

end Plan

namespace Optimize

open Plan

variable {rule : Rule} {m : Option Nat} {op : Operator} {is : List Plan} {p q : Plan}
  {r : Option Plan} {news : List (Option Plan)}

theorem Rewrite.lighter (h : Rewrite op is q) : Lighter (.node m op is) q := by
  cases h <;> refine ⟨⟨?_, ?_⟩, ?_⟩ <;>
    simp [fresh, fold_node, load, Operator.kind] <;> omega

theorem lighter_of_step (hr : rule ∈ rules) (hp : p.Built) (h : step rule p = .ok (some q)) :
    Lighter p q := by
  induction p generalizing q with
  | node m op is ih =>
    obtain ⟨hsteps, hcases⟩ := step_cases h
    obtain ⟨⟨ht, -⟩, his⟩ := built_node.mp hp
    have hbuilt : ∀ j ∈ is.map (after rule), j.Built := by
      intro j hj
      obtain ⟨i, hi, rfl⟩ := List.mem_map.mp hj
      obtain ⟨s, hs⟩ := hsteps i hi
      rw [after, changed, hs]
      exact (step_preserves preserved_kept hr (his i hi) hs).1
    have hlighter : ∀ i ∈ is, ∀ j, changed rule i = some j → Lighter i j := by
      intro i hi j hj
      obtain ⟨s, hs⟩ := hsteps i hi
      rw [changed, hs] at hj
      exact ih i hi (his i hi) (hj ▸ hs)
    have hle : ∀ i ∈ is, (after rule i).fold load ≤ i.fold load := by
      intro i hi
      rw [after]
      cases hc : changed rule i with
      | none => exact le_rfl
      | some j => exact (hlighter i hi j hc).le
    rcases hcases with ⟨q', hq, hsome⟩ | ⟨-, -, hnone⟩ | ⟨q', ⟨i, hi, j, hj⟩, hq, hsome⟩
    · obtain rfl := Option.some.inj hsome
      exact .of_le (fold_load_map hle) (rewrite_of_rule hr ht hbuilt hq).1.lighter
    · cases hnone
    · obtain rfl := Option.some.inj hsome
      have hne : is.map (after rule) ≠ [] := List.ne_nil_of_mem (List.mem_map_of_mem hi)
      obtain ⟨rfl, -⟩ := built_of_withInputs hp hne hbuilt hq
      have hafter : after rule i = j := by rw [after, hj]; rfl
      have hnode : Lighter (.node m op is) (.node m op (is.map (after rule))) :=
        .node hle ⟨i, hi, hafter ▸ hlighter i hi j hj⟩
      have hfiled := fold_filed load (Plan.node m op (is.map (after rule)))
      rw [filed_node] at hfiled
      exact hnode.congr hfiled

/-- Whether the rule of a pass applies somewhere in a plan while the pass goes through it. -/
inductive Fires (rule : Rule) : Plan → Prop
  | here {m : Option Nat} {op : Operator} {is : List Plan} {q : Plan}
      (h : rule op (is.map (after rule)) = .ok (some q)) : Fires rule (.node m op is)
  | inside {m : Option Nat} {op : Operator} {is : List Plan} {i : Plan} (hi : i ∈ is)
      (h : Fires rule i) : Fires rule (.node m op is)

theorem same_of_unchanged (h : unchanged (is.map (changed rule)) is = .ok true) :
    ∀ i ∈ is, ∀ j, changed rule i = some j → j.same i = .ok true := by
  induction is with
  | nil => simp
  | cons i is ih =>
    rw [List.map_cons] at h
    cases hc : changed rule i with
    | none =>
      rw [hc, unchanged] at h
      refine List.forall_mem_cons.mpr ⟨fun j hj ↦ ?_, ih h⟩
      rw [hc] at hj
      cases hj
    | some q =>
      rw [hc, unchanged] at h
      obtain ⟨b, hb, h⟩ := Outcome.bind_eq_ok.mp h
      cases b with
      | false => cases h
      | true =>
        refine List.forall_mem_cons.mpr ⟨fun j hj ↦ ?_, ih h⟩
        rw [hc] at hj
        exact Option.some.inj hj ▸ hb

theorem changed_of_unchanged (hr : rule ∈ rules) (his : ∀ i ∈ is, i.Built)
    (hsteps : ∀ i ∈ is, ∃ r, step rule i = .ok r)
    (h : unchanged (is.map (changed rule)) is = .ok true) : ∀ i ∈ is, changed rule i = none := by
  intro i hi
  by_contra hne
  obtain ⟨j, hj⟩ := Option.ne_none_iff_exists'.mp hne
  obtain ⟨s, hs⟩ := hsteps i hi
  have hstep : step rule i = .ok (some j) := by rw [step_eq_changed hs, hj]
  have hsame := fold_of_same load j i (same_of_unchanged h i hi j hj)
  exact (lighter_of_step hr (his i hi) hstep).fold_ne hsame

theorem step_eq_none_iff (hr : rule ∈ rules) (hp : p.Built) (h : step rule p = .ok r) :
    r = none ↔ ¬Fires rule p := by
  induction p generalizing r with
  | node m op is ih =>
    obtain ⟨hsteps, hcases⟩ := step_cases h
    have his := (built_node.mp hp).2
    have hin : ∀ i ∈ is, changed rule i = none ↔ ¬Fires rule i := by
      intro i hi
      obtain ⟨s, hs⟩ := hsteps i hi
      rw [changed, hs]
      exact ih i hi (his i hi) hs
    rcases hcases with ⟨q, hq, rfl⟩ | ⟨hrule, hsame, rfl⟩ | ⟨q, ⟨i, hi, j, hj⟩, -, rfl⟩
    · exact iff_of_false (by simp) fun hfires ↦ hfires (.here hq)
    · refine iff_of_true rfl fun hfires ↦ ?_
      cases hfires with
      | here hq =>
        rw [hrule] at hq
        cases hq
      | inside hi hbelow =>
        exact (hin _ hi).mp (changed_of_unchanged hr his hsteps hsame _ hi) hbelow
    · refine iff_of_false (by simp) fun hfires ↦ ?_
      have hnone := (hin i hi).mpr fun hbelow ↦ hfires (.inside hi hbelow)
      rw [hj] at hnone
      cases hnone

theorem Rewrite.dataFree (h : Rewrite op is q) (his : ∀ i ∈ is, i.DataFree) : q.DataFree := by
  cases h with
  | whole | always => exact his q (by simp)
  | _ =>
    simp only [List.forall_mem_singleton, dataFree_node, fresh] at his ⊢
    simpa [Operator.data?] using his.2

theorem dataFree_filed (h : p.DataFree) : p.filed.DataFree :=
  All.remade filed_node (fun op _ _ ↦ by cases op <;> rfl) h

theorem preserved_dataFree : Preserved fun p q ↦ p.DataFree → q.DataFree where
  refl := fun _ h ↦ h
  trans := fun _ _ _ hpq hqr h ↦ hqr (hpq h)
  rewrite := by
    intro m op is js q _ hjs hw hd
    refine hw.dataFree fun j hj ↦ ?_
    obtain ⟨i, hi, hij⟩ := exists_of_forall₂ ((List.forall₂_and_left _ _).mpr
      ⟨(dataFree_node.mp hd).2, hjs⟩) hj
    exact hij.2 hij.1
  rebuild := by
    intro m op is js _ hjs hd
    obtain ⟨hop, his⟩ := dataFree_node.mp hd
    refine dataFree_filed (dataFree_node.mpr ⟨hop, fun j hj ↦ ?_⟩)
    obtain ⟨i, hi, hij⟩ := exists_of_forall₂ ((List.forall₂_and_left _ _).mpr ⟨his, hjs⟩) hj
    exact hij.2 hij.1

/-- Without data the inputs of a node can be compared with what a pass makes of them, and they count
as equal exactly when no rule was applied in them and each is still the input itself. -/
theorem unchanged_iff_not_fires (hr : rule ∈ rules) (hp : (Plan.node m op is).Built)
    (hd : (Plan.node m op is).DataFree) (h : stepList rule is = .ok news) :
    ∃ b, unchanged news is = .ok b ∧ (b = true ↔ ∀ i ∈ is, ¬Fires rule i) ∧
      (b = true ↔ news = is.map fun _ ↦ none) := by
  have hsteps := step_of_stepList h
  have his := (built_node.mp hp).2
  obtain rfl := Except.ok.inj ((stepList_eq_map hsteps).symm.trans h)
  have hsame : ∀ i ∈ is, ∀ j, changed rule i = some j → j.same i = .ok false := by
    intro i hi j hj
    obtain ⟨s, hs⟩ := hsteps i hi
    have hstep : step rule i = .ok (some j) := by rw [step_eq_changed hs, hj]
    have hid := (dataFree_node.mp hd).2 i hi
    have hjd := (step_preserves preserved_dataFree hr (his i hi) hstep).2 hid
    exact same_eq_false load hjd hid (lighter_of_step hr (his i hi) hstep).fold_ne
  refine ⟨_, unchanged_map hsame, ?_, ?_⟩
  · rw [List.all_eq_true]
    refine forall₂_congr fun i hi ↦ ?_
    obtain ⟨s, hs⟩ := hsteps i hi
    rw [Option.isNone_iff_eq_none, changed, hs]
    exact step_eq_none_iff hr (his i hi) hs
  · rw [List.all_eq_true, List.map_inj_left]
    exact forall₂_congr fun i _ ↦ Option.isNone_iff_eq_none

def screened : Plan :=
  let source := Plan.fresh (.source "t" (some ["a"]) none) []
  let screen (n : Int) (p : Plan) :=
    Plan.fresh (.filter (.binary ">" (.column "a") (.literal (.int n)))) [p]
  .fresh .union [screen 0 (screen 1 source), source]

theorem unchanged_iff_not_fires_screened : pushFilters ∈ rules ∧ screened.Built ∧
    screened.DataFree ∧ ∃ news b, stepList pushFilters screened.inputs = .ok news ∧
      unchanged news screened.inputs = .ok b ∧
      (b = true ↔ ∀ i ∈ screened.inputs, ¬Fires pushFilters i) ∧
      (b = true ↔ news = screened.inputs.map fun _ ↦ none) := by
  have hr : pushFilters ∈ rules := by simp [rules]
  have hp : screened.Built := by
    simp [built_node, screened, fresh, Operator.isTyped, Operator.Accepts, Offers, schema?,
      Expr.isFilled, Expr.columns]
  have hd : screened.DataFree := by simp [DataFree, All, AllList, screened, fresh, Operator.data?]
  obtain ⟨news, hnews⟩ := Outcome.succeeds_of_isOk
    (x := stepList pushFilters screened.inputs) (by decide +kernel)
  obtain ⟨b, hb⟩ := unchanged_iff_not_fires hr hp hd hnews
  exact ⟨hr, hp, hd, news, b, hnews, hb⟩

end Optimize

end Gridplan
