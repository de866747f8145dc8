import Gridplan.Optimize.Rules
import Gridplan.Proofs.Optimize.Step
import Gridplan.Proofs.Plan.Sharing

namespace Gridplan

open Outcome (bind_eq_ok)

namespace Plan

variable {p q : Plan} {op : Operator} {is news : List Plan}

theorem built_of_make (ht : op.isTyped = true) (his : ∀ q ∈ is, q.Built)
    (h : make op is = .ok p) : p = fresh op is ∧ p.Built := by
  obtain ⟨ha, rfl⟩ := (make_eq_ok ht fun q hq ↦ isTyped_of_built (his q hq)).mp h
  exact ⟨rfl, built_node.mpr ⟨⟨ht, ha⟩, his⟩⟩

theorem built_of_withInputs (hb : p.Built) (hne : news ≠ []) (hnb : ∀ q ∈ news, q.Built)
    (h : p.withInputs news = .ok q) : q = fresh p.op.filed (news.map Plan.filed) ∧ q.Built := by
  have hs : p.isStorable = true := by
    by_contra hs
    rw [withInputs_error hb hnb (.inl (by simpa using hs))] at h
    cases h
  have hns : news.all isStorable = true := by
    by_contra hns
    rw [withInputs_error hb hnb (.inr (by simpa using hns))] at h
    cases h
  have hns := List.all_eq_true.mp hns
  obtain ⟨ha, rfl⟩ := (withInputs_eq_ok hb hs hne hnb hns).mp h
  refine ⟨rfl, built_node.mpr ⟨⟨Operator.isTyped_filed (isTyped_of_built hb) (isStorable_op hs), ha⟩,
    fun q hq ↦ ?_⟩⟩
  obtain ⟨r, hr, rfl⟩ := List.mem_map.mp hq
  exact (hnb r hr).filed (hns r hr)

end Plan

namespace Optimize

variable {rule : Rule} {m : Option Nat} {op : Operator} {is : List Plan} {p q : Plan}
  {R : Plan → Plan → Prop}

theorem step_of_stepList {news : List (Option Plan)} (h : stepList rule is = .ok news) :
    ∀ p ∈ is, ∃ r, step rule p = .ok r := by
  induction is generalizing news with
  | nil => simp
  | cons p ps ih =>
    simp only [stepList, bind_eq_ok] at h
    obtain ⟨r, hr, rs, hrs, -⟩ := h
    exact List.forall_mem_cons.mpr ⟨⟨r, hr⟩, ih hrs⟩

theorem exists_of_unchanged (h : unchanged (is.map (changed rule)) is = .ok false) :
    ∃ i ∈ is, ∃ q, changed rule i = some q := by
  induction is with
  | nil => cases h
  | cons i is ih =>
    cases hc : changed rule i with
    | some q => exact ⟨i, by simp, q, hc⟩
    | none =>
      rw [List.map_cons, hc, unchanged] at h
      obtain ⟨j, hj, hq⟩ := ih h
      exact ⟨j, by simp [hj], hq⟩

theorem step_cases {r : Option Plan} (h : step rule (.node m op is) = .ok r) :
    (∀ p ∈ is, ∃ r, step rule p = .ok r) ∧
      ((∃ q, rule op (is.map (after rule)) = .ok (some q) ∧ r = some q) ∨
        (rule op (is.map (after rule)) = .ok none ∧
          unchanged (is.map (changed rule)) is = .ok true ∧ r = none) ∨
        ∃ q, (∃ i ∈ is, ∃ j, changed rule i = some j) ∧
          (Plan.node m op is).withInputs (is.map (after rule)) = .ok q ∧ r = some q) := by
  simp only [step, bind_eq_ok] at h
  obtain ⟨news, hnews, found, hfound, h⟩ := h
  have hsteps := step_of_stepList hnews
  rw [stepList_eq_map hsteps, Except.ok.injEq] at hnews
  subst hnews
  rw [fill_map] at hfound h
  refine ⟨hsteps, ?_⟩
  cases found with
  | some q =>
    obtain rfl := Except.ok.inj h
    exact .inl ⟨q, hfound, rfl⟩
  | none =>
    simp only [bind_eq_ok] at h
    obtain ⟨same, hsame, h⟩ := h
    cases same with
    | true =>
      obtain rfl := Except.ok.inj h
      exact .inr (.inl ⟨hfound, hsame, rfl⟩)
    | false =>
      simp only [Bool.false_eq_true, if_false, bind_eq_ok] at h
      obtain ⟨q, hq, h⟩ := h
      obtain rfl := Except.ok.inj h
      exact .inr (.inr ⟨q, exists_of_unchanged hsame, hq, rfl⟩)

inductive Rewrite : Operator → List Plan → Plan → Prop
  | sink {e : Expr} {names : List String} (m : Option Nat) (c : Option Expr) (x : Plan)
      (h : ∀ n ∈ e.references, n ∈ names) :
      Rewrite (.filter e) [.node m (.select names c) [x]]
        (.fresh (.select names none) [.fresh (.filter e) [x]])
  | both (e inner : Expr) (m : Option Nat) (x : Plan) :
      Rewrite (.filter e) [.node m (.filter inner) [x]] (.fresh (.filter (inner.conj e)) [x])
  | outer (names names' : List String) (c c' : Option Expr) (m : Option Nat) (x : Plan) :
      Rewrite (.select names c) [.node m (.select names' c') [x]] (.fresh (.select names none) [x])
  | cap (count : Int) (side : Side) (keys : List SortKey) (cap : Option Int) (c : Option Expr)
      (m : Option Nat) (x : Plan) :
      Rewrite (.limit count side) [.node m (.sort keys cap c) [x]]
        (.fresh (.sort keys (some (bounded count cap)) c) [x])
  | sortIf (keys : List SortKey) (cap : Option Int) (c : Option Expr) (inner : Expr)
      (m : Option Nat) (x : Plan) :
      Rewrite (.sort keys cap c) [.node m (.filter inner) [x]]
        (.fresh (.sort keys cap (some (conjunction c inner))) [x])
  | selectIf (names : List String) (c : Option Expr) (inner : Expr) (m : Option Nat) (x : Plan) :
      Rewrite (.select names c) [.node m (.filter inner) [x]]
        (.fresh (.select names (some (conjunction c inner))) [x])
  | whole {names : List String} (c : Option Expr) {x : Plan} {d : Datum} (hd : x.heading = .ok d)
      (h : (Datum.ofTexts names).same d = true) : Rewrite (.select names c) [x] x
  | always (x : Plan) : Rewrite (.filter (.literal (.bool true))) [x] x
  | again (keys keys' : List SortKey) (cap cap' : Option Int) (c c' : Option Expr) (m : Option Nat)
      (x : Plan) :
      Rewrite (.sort keys cap c) [.node m (.sort keys' cap' c') [x]]
        (.fresh (.sort keys none none) [x])

theorem one_input (h : (Plan.node m op is).Built) (hk : op.kind.arity = 1) :
    ∃ x, is = [x] ∧ x.Built := by
  obtain ⟨⟨-, ha⟩, his⟩ := Plan.built_node.mp h
  obtain ⟨x, rfl⟩ := List.length_eq_one_iff.mp (ha.length.trans hk)
  exact ⟨x, rfl, his x (by simp)⟩

theorem isTyped_select {names : List String} {e : Expr} (h : e ≠ .raw .null) :
    (Operator.select names (some e)).isTyped = true := by
  unfold Operator.isTyped
  split <;> simp_all

theorem isTyped_sort {keys : List SortKey} {cap : Option Int} {c : Option Expr}
    (h : c ≠ some (.raw .null)) : (Operator.sort keys cap c).isTyped = true := by
  unfold Operator.isTyped
  split <;> simp_all

theorem conjunction_ne_null {c : Option Expr} {inner : Expr}
    (h : (Plan.node m (.filter inner) is).Built) : conjunction c inner ≠ .raw .null := by
  obtain ⟨x, rfl, -⟩ := one_input h rfl
  cases c with
  | some e => rintro ⟨⟩
  | none =>
    rintro rfl
    cases (Plan.built_node.mp h).1.2.1

theorem eq_ok_of_some {x : Outcome Plan} (h : (x >>= fun p ↦ pure (some p)) = .ok (some q)) :
    x = .ok q := by
  obtain ⟨p, hp, h⟩ := bind_eq_ok.mp h
  rw [hp, Option.some.inj (Except.ok.inj h)]

/-- What a rule makes over the inputs of a node with one input. -/
theorem built_over {inner : Operator} (hin : (Plan.node m inner is).Built)
    (hk : inner.kind.arity = 1) (ht : op.isTyped = true)
    (h : (Plan.make op is >>= fun p ↦ pure (some p)) = .ok (some q)) :
    ∃ x, is = [x] ∧ q = .fresh op [x] ∧ q.Built := by
  obtain ⟨x, rfl, hx⟩ := one_input hin hk
  exact ⟨x, rfl, Plan.built_of_make ht (by simpa using hx) (eq_ok_of_some h)⟩

theorem pushFilters_cases (his : ∀ p ∈ is, p.Built) (h : pushFilters op is = .ok (some q)) :
    Rewrite op is q ∧ q.Built := by
  unfold pushFilters at h
  split at h
  · next e m names c inputs =>
    obtain ⟨x, rfl, hx⟩ := one_input (his (.node m (.select names c) inputs) (by simp)) rfl
    split at h
    · next hc =>
      obtain ⟨below, hbelow, h⟩ := bind_eq_ok.mp h
      obtain ⟨rfl, hb⟩ := Plan.built_of_make rfl (by simpa using hx) hbelow
      obtain ⟨rfl, hs⟩ := Plan.built_of_make rfl (by simpa using hb) (eq_ok_of_some h)
      refine ⟨.sink m c x ?_, hs⟩
      simpa using hc
    · cases h
  · next e m inner inputs =>
    obtain ⟨x, rfl, rfl, hb⟩ := built_over (List.forall_mem_singleton.mp his) rfl rfl h
    exact ⟨.both e inner m x, hb⟩
  · cases h

theorem mergeProjections_cases (his : ∀ p ∈ is, p.Built)
    (h : mergeProjections op is = .ok (some q)) : Rewrite op is q ∧ q.Built := by
  unfold mergeProjections at h
  split at h
  · next names c m names' c' inputs =>
    obtain ⟨x, rfl, rfl, hb⟩ := built_over (List.forall_mem_singleton.mp his) rfl rfl h
    exact ⟨.outer names names' c c' m x, hb⟩
  · cases h

theorem fuse_cases (ht : op.isTyped = true) (his : ∀ p ∈ is, p.Built)
    (h : fuse op is = .ok (some q)) : Rewrite op is q ∧ q.Built := by
  unfold fuse at h
  split at h
  · next count side m keys cap c inputs =>
    have hin := List.forall_mem_singleton.mp his
    have hc : c ≠ some (.raw .null) := by
      rintro rfl
      cases Plan.isTyped_of_built hin
    obtain ⟨x, rfl, rfl, hb⟩ := built_over hin rfl (isTyped_sort hc) h
    exact ⟨.cap count side keys cap c m x, hb⟩
  · next keys cap c m inner inputs =>
    have hin := List.forall_mem_singleton.mp his
    have hc := conjunction_ne_null (c := c) hin
    obtain ⟨x, rfl, rfl, hb⟩ := built_over hin rfl (isTyped_sort (by simpa using hc)) h
    exact ⟨.sortIf keys cap c inner m x, hb⟩
  · next names c m inner inputs =>
    have hin := List.forall_mem_singleton.mp his
    have hc := conjunction_ne_null (c := c) hin
    obtain ⟨x, rfl, rfl, hb⟩ := built_over hin rfl (isTyped_select hc) h
    exact ⟨.selectIf names c inner m x, hb⟩
  · cases ht
  · cases Plan.isTyped_of_built (List.forall_mem_singleton.mp his)
  · cases h

theorem simplify_cases (ht : op.isTyped = true) (his : ∀ p ∈ is, p.Built)
    (h : simplify op is = .ok (some q)) : Rewrite op is q ∧ q.Built := by
  unfold simplify at h
  split at h
  · next names c x =>
    simp only [bind_eq_ok] at h
    obtain ⟨d, hd, h⟩ := h
    split at h
    · next hs =>
      obtain rfl := Option.some.inj (Except.ok.inj h)
      exact ⟨.whole c hd (by simp_all), his x (by simp)⟩
    · cases h
  · next x =>
    obtain rfl := Option.some.inj (Except.ok.inj h)
    exact ⟨.always x, his x (by simp)⟩
  · next keys cap c m keys' cap' c' inputs =>
    obtain ⟨x, rfl, rfl, hb⟩ := built_over (List.forall_mem_singleton.mp his) rfl rfl h
    exact ⟨.again keys keys' cap cap' c c' m x, hb⟩
  · cases ht
  · cases Plan.isTyped_of_built (List.forall_mem_singleton.mp his)
  · cases h

theorem rewrite_of_rule (hr : rule ∈ rules) (ht : op.isTyped = true) (his : ∀ p ∈ is, p.Built)
    (h : rule op is = .ok (some q)) : Rewrite op is q ∧ q.Built := by
  simp only [rules, List.mem_cons, List.not_mem_nil, or_false] at hr
  rcases hr with rfl | rfl | rfl | rfl
  · exact pushFilters_cases his h
  · exact mergeProjections_cases his h
  · exact fuse_cases ht his h
  · exact simplify_cases ht his h

/-- A relation that holds between a plan and itself, and that the rewrites and storing keep. -/
structure Preserved (R : Plan → Plan → Prop) : Prop where
  refl : ∀ p, R p p
  trans : ∀ p q r, R p q → R q r → R p r
  rewrite : ∀ m op is js q, (Plan.node m op is).Built → List.Forall₂ R is js → Rewrite op js q →
    R (.node m op is) q
  rebuild : ∀ m op is js, (Plan.node m op is).Built → List.Forall₂ R is js →
    R (.node m op is) (Plan.node m op js).filed

theorem step_preserves (hR : Preserved R) (hr : rule ∈ rules) {r : Option Plan} (hp : p.Built)
    (h : step rule p = .ok r) : (r.getD p).Built ∧ R p (r.getD p) := by
  induction p generalizing r with
  | node m op is ih =>
    obtain ⟨hsteps, hcases⟩ := step_cases h
    obtain ⟨⟨ht, -⟩, his⟩ := Plan.built_node.mp hp
    have hin : ∀ i ∈ is, (after rule i).Built ∧ R i (after rule i) := by
      intro i hi
      obtain ⟨r, hi'⟩ := hsteps i hi
      rw [after, changed, hi']
      exact ih i hi (his i hi) hi'
    have hjs : ∀ j ∈ is.map (after rule), j.Built := by
      simpa using fun i hi ↦ (hin i hi).1
    have hRs : List.Forall₂ R is (is.map (after rule)) := by
      rw [List.forall₂_map_right_iff, List.forall₂_same]
      exact fun i hi ↦ (hin i hi).2
    rcases hcases with ⟨q, hq, rfl⟩ | ⟨-, -, rfl⟩ | ⟨q, ⟨i, hi, -⟩, hq, rfl⟩
    · obtain ⟨hw, hb⟩ := rewrite_of_rule hr ht hjs hq
      exact ⟨hb, hR.rewrite m op is _ q hp hRs hw⟩
    · exact ⟨hp, hR.refl _⟩
    · have hne : is.map (after rule) ≠ [] := List.ne_nil_of_mem (List.mem_map_of_mem hi)
      obtain ⟨rfl, hb⟩ := Plan.built_of_withInputs hp hne hjs hq
      have := hR.rebuild m op is _ hp hRs
      rw [Plan.filed_node] at this
      exact ⟨hb, this⟩

/-- What every step keeps, and what carries over from one plan to the next, holds between a plan and
what it is optimized to. -/
theorem optimize_related (hrefl : ∀ p, R p p) (htrans : ∀ p q r, R p q → R q r → R p r)
    (hstep : ∀ rule ∈ rules, ∀ p r, step rule p = .ok r → R p (r.getD p))
    (h : p.optimize = .ok q) : R p q := by
  have hrun : ∀ rs ⊆ rules, ∀ p : Plan, rs.foldlM (fun q rule ↦ pass rule q) p = .ok q →
      R p q := by
    intro rs
    induction rs with
    | nil =>
      intro _ p h
      obtain rfl := Except.ok.inj h
      exact hrefl p
    | cons rule rs ih =>
      intro hrs p h
      rw [List.foldlM_cons] at h
      obtain ⟨mid, hmid, h⟩ := bind_eq_ok.mp h
      obtain ⟨r, hr, hret⟩ := bind_eq_ok.mp hmid
      obtain rfl := Except.ok.inj hret
      have hrest := ih (fun _ h ↦ hrs (by simp [h])) _ h
      exact htrans _ _ _ (hstep rule (hrs (by simp)) p r hr) hrest
  exact hrun rules (List.Subset.refl _) p h

theorem optimize_preserves (hR : Preserved R) (hp : p.Built) (h : p.optimize = .ok q) :
    q.Built ∧ R p q := by
  refine optimize_related (R := fun p q ↦ p.Built → q.Built ∧ R p q) (fun p hp ↦ ⟨hp, hR.refl p⟩)
    (fun p q r hpq hqr hp ↦ ?_) (fun rule hr p r h hp ↦ step_preserves hR hr hp h) h hp
  obtain ⟨hq, hfirst⟩ := hpq hp
  obtain ⟨hr, hrest⟩ := hqr hq
  exact ⟨hr, hR.trans p q r hfirst hrest⟩

theorem mark_of_mem_filed {x : Plan} (h : x ∈ p.filed.occurrences) : x.mark = none := by
  induction p with
  | node m op is ih =>
    rw [Plan.filed_node, Plan.mem_occurrences_node] at h
    rcases h with rfl | ⟨q, hq, hx⟩
    · rfl
    · obtain ⟨i, hi, rfl⟩ := List.mem_map.mp hq
      exact ih i hi hx

theorem Rewrite.kept (h : Rewrite op is q) {x : Plan} (hx : x ∈ q.occurrences)
    (hm : x.mark ≠ none) : ∃ i ∈ is, x ∈ i.occurrences := by
  cases h with
  | whole | always => exact ⟨q, by simp, hx⟩
  | sink m c y =>
    simp only [Plan.fresh, Plan.mem_occurrences_node, List.mem_singleton, exists_eq_left] at hx ⊢
    rcases hx with rfl | rfl | hx
    · exact absurd rfl hm
    · exact absurd rfl hm
    · exact .inr hx
  | _ =>
    simp only [Plan.fresh, Plan.mem_occurrences_node, List.mem_singleton, exists_eq_left] at hx ⊢
    rcases hx with rfl | hx
    · exact absurd rfl hm
    · exact .inr hx

theorem preserved_kept :
    Preserved fun p q ↦ ∀ x ∈ q.occurrences, x.mark ≠ none → x ∈ p.occurrences where
  refl := fun p x hx _ ↦ hx
  trans := fun p q r hpq hqr x hx hm ↦ hpq x (hqr x hx hm) hm
  rewrite := by
    intro m op is js q _ hjs hw x hx hm
    obtain ⟨j, hj, hxj⟩ := hw.kept hx hm
    obtain ⟨i, hi, hij⟩ := exists_of_forall₂ hjs hj
    exact Plan.mem_occurrences_node.mpr (.inr ⟨i, hi, hij x hxj hm⟩)
  rebuild := fun m op is js _ _ x hx hm ↦ absurd (mark_of_mem_filed hx) hm

theorem coherent_of_optimize (hp : p.Built) (hc : p.Coherent) (h : p.optimize = .ok q) :
    q.Built ∧ q.Coherent := by
  obtain ⟨hb, hkept⟩ := optimize_preserves preserved_kept hp h
  exact ⟨hb, hc.of_kept hkept⟩

end Optimize

end Gridplan
