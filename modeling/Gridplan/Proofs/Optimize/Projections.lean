import Gridplan.Optimize.Rules
import Gridplan.Proofs.Optimize.Rebuild

namespace Gridplan

namespace Plan

def nested (op : Operator) (is : List Plan) : Bool :=
  op.kind == .select && is.any (·.kind == .select)

theorem nested_map {g : Plan → Plan} (op : Operator) (is : List Plan)
    (h : ∀ q ∈ is, (g q).kind = q.kind) : nested op (is.map g) = nested op is := by
  rw [nested, nested, List.any_map]
  exact congrArg _ (list_any_congr fun q hq ↦ by rw [Function.comp_apply, h q hq])

theorem nested_filed (op : Operator) (is : List Plan) :
    nested op.filed (is.map filed) = nested op is := by
  have hk : ∀ q ∈ is, q.filed.kind = q.kind := fun q _ ↦ by
    rw [kind, op_filed, Operator.kind_filed, kind]
  rw [← nested_map op is hk, nested, nested, Operator.kind_filed]

def nodes (_ : Kind) (below : List Nat) : Nat := below.sum + 1

theorem sum_map_le {a b : Plan → Nat} {c : Plan → Bool} {is : List Plan}
    (h : ∀ q ∈ is, a q + (c q).toNat ≤ b q) :
    (is.map a).sum + (is.any c).toNat ≤ (is.map b).sum := by
  induction is with
  | nil => simp
  | cons p ps ih =>
    obtain ⟨hp, hps⟩ := List.forall_mem_cons.mp h
    have hrest := ih hps
    have hor : (c p || ps.any c).toNat ≤ (c p).toNat + (ps.any c).toNat := by
      cases c p <;> cases ps.any c <;> decide
    simp only [List.map_cons, List.sum_cons, List.any_cons]
    omega

end Plan

namespace Optimize

open Plan

variable {I : Interpretation} {m : Option Nat} {op : Operator} {is : List Plan} {p : Plan}
  {R : Relation}

structure Merged (I : Interpretation) (p : Plan) : Prop where
  finishes : ∃ r, step mergeProjections p = .ok r
  changes : (changed mergeProjections p).isSome = p.any nested
  stands : Stands I p (after mergeProjections p)
  kind : (after mergeProjections p).kind = p.kind
  smaller : (after mergeProjections p).fold nodes + (p.any nested).toNat ≤ p.fold nodes

theorem Merged.same (h : Merged I p) (hp : p.Plain) :
    ∀ q, changed mergeProjections p = some q → q.same p = .ok false := by
  intro q hq
  have hafter : after mergeProjections p = q := by rw [after, hq]; rfl
  have hany : p.any nested = true := by rw [← h.changes, hq]; rfl
  have hlt := h.smaller
  have hplain := h.stands.plain
  rw [hafter] at hlt hplain
  rw [hany, Bool.toNat_true] at hlt
  exact same_eq_false nodes hplain.dataFree hp.dataFree (by omega)

theorem mergeProjections_eq_none (h : nested op is = false) :
    mergeProjections op is = .ok none := by
  unfold mergeProjections
  split
  · simp [nested, Operator.kind, Plan.kind, Plan.op] at h
  · rfl

theorem merged_select (hp : (Plan.node m op is).Plain) (hs : (Plan.node m op is).isStorable = true)
    (hm : (Plan.node m op is).meaning I = some R) (hin : ∀ q ∈ is, Merged I q)
    (hn : nested op is = true) : Merged I (.node m op is) := by
  obtain ⟨hk, x, hx, hxk⟩ : op.kind = .select ∧ ∃ x ∈ is, x.kind = .select := by
    simpa [nested] using hn
  obtain ⟨_, names, _, heq⟩ := hp.eq_select hk
  obtain ⟨rfl, rfl, rfl⟩ := Plan.node.inj heq
  obtain rfl := List.mem_singleton.mp hx
  have hxm := hin x hx
  obtain ⟨⟨-, -, hne, -⟩, hps⟩ := plain_node.mp hp
  obtain ⟨m', inner, y, hafter⟩ := hxm.stands.plain.eq_select (hxm.kind.trans hxk)
  have hplain := hxm.stands.plain
  have hstore := hxm.stands.storable
  have hmeaning := hxm.stands.meaning
  have hsmaller := hxm.smaller
  rw [hafter] at hplain hstore hmeaning hsmaller
  have hy : y.Plain := (plain_node.mp hplain).2 y (by simp)
  obtain ⟨S, hS, hproj⟩ := meaning_select.mp hm
  obtain ⟨T, hT, hinner⟩ := meaning_select.mp (hmeaning.trans hS)
  have hall := Relation.project_project hinner hproj
  have haccepts : (Operator.select names none).Accepts [y] :=
    ⟨hne, hy.offers hT (Relation.project_eq_some.mp hall).1⟩
  have hmake : Plan.make (.select names none) [y] = .ok (fresh (.select names none) [y]) :=
    (make_eq_ok rfl (by simpa using isTyped_of_built hy.built)).mpr ⟨haccepts, rfl⟩
  have hstep : step mergeProjections (.node m (.select names none) [x]) =
      .ok (some (fresh (.select names none) [y])) := by
    rw [step_node (fun q hq ↦ (hin q hq).finishes) fun q hq ↦ (hin q hq).same (hps q hq)]
    simp [hafter, mergeProjections, hmake]
  have hany : (Plan.node m (.select names none) [x]).any nested = true := by
    rw [any_node, hn, Bool.true_or]
  refine ⟨⟨_, hstep⟩, ?_, ?_, ?_, ?_⟩
  · rw [changed_eq hstep, hany]
    rfl
  · rw [after_eq hstep]
    refine ⟨plain_node.mpr ⟨⟨rfl, rfl, haccepts⟩, by simpa using hy⟩, ?_, rfl, ?_⟩
    · simpa [fresh, isStorable_node, Operator.isStorable] using hstore
    · exact (meaning_select.mpr ⟨T, hT, hall⟩).trans hm.symm
  · rw [after_eq hstep]
    rfl
  · rw [after_eq hstep, hany]
    simp only [Option.getD_some, fresh, fold_node, nodes, List.map_cons, List.map_nil,
      List.sum_cons, List.sum_nil, Bool.toNat_true] at hsmaller ⊢
    omega

theorem merged (hp : p.Plain) (hs : p.isStorable = true) (hm : p.meaning I = some R) :
    Merged I p := by
  induction p generalizing R with
  | node m op is ih =>
    obtain ⟨⟨hplain, ht, ha⟩, hps⟩ := plain_node.mp hp
    have hss := isStorable_node.mp hs
    have hin : ∀ q ∈ is, Merged I q := by
      intro q hq
      obtain ⟨S, hS⟩ := meaning_of_mem hm hq
      exact ih q hq (hps q hq) (hss.2 q hq) hS
    cases hn : nested op is with
    | false =>
      have hrule : mergeProjections op (is.map (after mergeProjections)) = .ok none := by
        refine mergeProjections_eq_none ?_
        rw [nested_map op is fun q hq ↦ (hin q hq).kind, hn]
      have hreb := rebuilt (fun q hq ↦ (hin q hq).finishes)
        (fun q hq ↦ (hin q hq).same (hps q hq)) hrule hp hs fun q hq ↦ (hin q hq).stands
      have hany : (Plan.node m op is).any nested = is.any (Plan.any nested) := by
        rw [any_node, hn, Bool.false_or]
      refine ⟨hreb.finishes, ?_, hreb.stands hp hss.1 fun q hq ↦ (hin q hq).stands, hreb.kind, ?_⟩
      · rw [hreb.changes, hany]
        exact list_any_congr fun q hq ↦ (hin q hq).changes
      · rw [hreb.fold, hany, fold_node]
        have := sum_map_le fun q hq ↦ (hin q hq).smaller
        simp only [nodes]
        omega
    | true => exact merged_select hp hs hm hin hn

end Optimize

end Gridplan
