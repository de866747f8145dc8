import Gridplan.Optimize.Pass
import Gridplan.Proofs.Plan.Storing

namespace Gridplan

namespace Plan

mutual

def fold {α : Type} (f : Kind → List α → α) : Plan → α
  | .node _ op is => f op.kind (foldList f is)

def foldList {α : Type} (f : Kind → List α → α) : List Plan → List α
  | [] => []
  | p :: ps => fold f p :: foldList f ps

end

theorem fold_node {α : Type} (f : Kind → List α → α) (m : Option Nat) (op : Operator)
    (is : List Plan) : fold f (.node m op is) = f op.kind (is.map (fold f)) := by
  rw [fold, eq_map_of_cons (g := foldList f) rfl fun _ _ ↦ rfl]

theorem fold_filed {α : Type} (f : Kind → List α → α) (p : Plan) : p.filed.fold f = p.fold f := by
  induction p with
  | node m op is ih =>
    rw [filed_node, fold_node, fold_node, Operator.kind_filed, List.map_map]
    exact congrArg _ (List.map_congr_left fun q hq ↦ ih q hq)

def DataFree : Plan → Prop := All fun op _ ↦ op.data? = none

theorem dataFree_node {m : Option Nat} {op : Operator} {is : List Plan} :
    DataFree (.node m op is) ↔ op.data? = none ∧ ∀ q ∈ is, q.DataFree := all_node

mutual

theorem fold_of_same {α : Type} (f : Kind → List α → α) : ∀ p q : Plan,
    p.same q = .ok true → p.fold f = q.fold f
  | .node m op is, .node m' op' js, h => by
    rw [same] at h
    split at h
    · next hk =>
      obtain ⟨b, hb, h⟩ := Outcome.bind_eq_ok.mp h
      cases b with
      | false => cases h
      | true =>
        have hk : op.kind = op'.kind := hk
        rw [fold, fold, hk, foldList_of_sameList f is js hb]
    · cases h

theorem foldList_of_sameList {α : Type} (f : Kind → List α → α) : ∀ is js : List Plan,
    sameList is js = .ok true → foldList f is = foldList f js
  | [], [], _ => rfl
  | [], _ :: _, h => by cases h
  | _ :: _, [], h => by cases h
  | p :: ps, q :: qs, h => by
    obtain ⟨b, hb, h⟩ := Outcome.bind_eq_ok.mp h
    cases b with
    | false => cases h
    | true => rw [foldList, foldList, fold_of_same f p q hb, foldList_of_sameList f ps qs h]

end

mutual

theorem same_succeeds : ∀ p q : Plan, p.DataFree → q.DataFree → ∃ b, p.same q = .ok b
  | .node m op is, .node m' op' js, hp, hq => by
    obtain ⟨hd, his⟩ := dataFree_node.mp hp
    obtain ⟨hd', hjs⟩ := dataFree_node.mp hq
    obtain ⟨b, hb⟩ := sameList_succeeds is js his hjs
    by_cases hk : op.kind = op'.kind
    swap
    · exact ⟨false, by simp [same, kind, Plan.op, hk]⟩
    cases b with
    | false => exact ⟨false, by simp [same, kind, Plan.op, Plan.inputs, hk, hb]⟩
    | true =>
      refine ⟨op.params.agree op'.params, ?_⟩
      cases ha : op.params.agree op'.params <;>
        simp [same, kind, Plan.op, Plan.inputs, hk, hb, Operator.agrees, ha, hd, hd']

theorem sameList_succeeds : ∀ is js : List Plan, (∀ p ∈ is, p.DataFree) →
    (∀ q ∈ js, q.DataFree) → ∃ b, sameList is js = .ok b
  | [], [], _, _ => ⟨true, rfl⟩
  | [], _ :: _, _, _ => ⟨false, rfl⟩
  | _ :: _, [], _, _ => ⟨false, rfl⟩
  | p :: ps, q :: qs, hp, hq => by
    obtain ⟨hp, hps⟩ := List.forall_mem_cons.mp hp
    obtain ⟨hq, hqs⟩ := List.forall_mem_cons.mp hq
    obtain ⟨b, hb⟩ := same_succeeds p q hp hq
    cases b with
    | false => exact ⟨false, by simp [sameList, hb]⟩
    | true =>
      obtain ⟨c, hc⟩ := sameList_succeeds ps qs hps hqs
      exact ⟨c, by simp [sameList, hb, hc]⟩

end

theorem same_eq_false {α : Type} (f : Kind → List α → α) {p q : Plan} (hp : p.DataFree)
    (hq : q.DataFree) (h : p.fold f ≠ q.fold f) : p.same q = .ok false := by
  obtain ⟨b, hb⟩ := same_succeeds p q hp hq
  cases b with
  | false => exact hb
  | true => exact absurd (fold_of_same f p q hb) h

end Plan

namespace Optimize

variable {rule : Rule} {m : Option Nat} {op : Operator} {is : List Plan}

def changed (rule : Rule) (p : Plan) : Option Plan :=
  match step rule p with
  | .ok r => r
  | .error _ => none

def after (rule : Rule) (p : Plan) : Plan := (changed rule p).getD p

theorem step_eq_changed {p : Plan} {r : Option Plan} (h : step rule p = .ok r) :
    step rule p = .ok (changed rule p) := by
  rw [changed, h]

theorem pass_eq_after {p : Plan} {r : Option Plan} (h : step rule p = .ok r) :
    pass rule p = .ok (after rule p) := by
  rw [pass, step_eq_changed h]
  rfl

theorem stepList_eq_map (h : ∀ p ∈ is, ∃ r, step rule p = .ok r) :
    stepList rule is = .ok (is.map (changed rule)) := by
  induction is with
  | nil => rfl
  | cons p ps ih =>
    obtain ⟨⟨r, hr⟩, hps⟩ := List.forall_mem_cons.mp h
    rw [stepList, step_eq_changed hr, Outcome.ok_bind, ih hps]
    rfl

theorem fill_map (is : List Plan) : fill (is.map (changed rule)) is = is.map (after rule) := by
  induction is with
  | nil => rfl
  | cons p ps ih =>
    rw [List.map_cons, List.map_cons, after]
    cases changed rule p <;> simp [fill, ih]

theorem unchanged_map (h : ∀ p ∈ is, ∀ q, changed rule p = some q → q.same p = .ok false) :
    unchanged (is.map (changed rule)) is = .ok (is.all fun p ↦ (changed rule p).isNone) := by
  induction is with
  | nil => rfl
  | cons p ps ih =>
    obtain ⟨hp, hps⟩ := List.forall_mem_cons.mp h
    cases hc : changed rule p with
    | none => simp [unchanged, hc, ih hps]
    | some q => simp [unchanged, hc, hp q hc]

theorem step_node (h : ∀ p ∈ is, ∃ r, step rule p = .ok r)
    (hsame : ∀ p ∈ is, ∀ q, changed rule p = some q → q.same p = .ok false) :
    step rule (.node m op is) = (do
      match ← rule op (is.map (after rule)) with
      | some p => return some p
      | none =>
        if is.all fun p ↦ (changed rule p).isNone then return none
        else return some (← (Plan.node m op is).withInputs (is.map (after rule)))) := by
  simp only [step, stepList_eq_map h, Outcome.ok_bind, fill_map]
  cases rule op (is.map (after rule)) with
  | error x => rfl
  | ok r =>
    cases r with
    | some p => rfl
    | none => simp only [Outcome.ok_bind, unchanged_map hsame]

theorem step_rebuild (h : ∀ p ∈ is, ∃ r, step rule p = .ok r)
    (hsame : ∀ p ∈ is, ∀ q, changed rule p = some q → q.same p = .ok false)
    (hrule : rule op (is.map (after rule)) = .ok none)
    (hb : (Plan.node m op is).Built) (hs : (Plan.node m op is).isStorable = true)
    (hnb : ∀ p ∈ is, (after rule p).Built) (hns : ∀ p ∈ is, (after rule p).isStorable = true)
    (hschema : ∀ p ∈ is, (after rule p).schema? = p.schema?) :
    step rule (.node m op is) = .ok
      (if is.all fun p ↦ (changed rule p).isNone then none
      else some (Plan.node m op (is.map (after rule))).filed) := by
  rw [step_node h hsame, hrule, Outcome.ok_bind]
  cases hall : is.all fun p ↦ (changed rule p).isNone with
  | true => simp
  | false =>
    obtain ⟨⟨-, ha⟩, -⟩ := Plan.built_node.mp hb
    have hop : op.isStorable = true := Plan.isStorable_op hs
    have hacc : op.Accepts (is.map (after rule)) := by
      refine ha.congr ?_
      rw [List.forall₂_map_right_iff, List.forall₂_same]
      exact hschema
    have hne : is.map (after rule) ≠ [] := by
      intro hnil
      rw [List.map_eq_nil_iff.mp hnil] at hall
      cases hall
    have hw : (Plan.node m op is).withInputs (is.map (after rule)) =
        .ok (Plan.node m op (is.map (after rule))).filed := by
      rw [Plan.withInputs_eq_ok hb hs hne (by simpa using hnb) (by simpa using hns), Plan.filed_node]
      exact ⟨Plan.accepts_filed hacc hop, rfl⟩
    simp [hw]

theorem step_node_error {x : Fault}
    (h : ∀ p ∈ is, (∃ r, step rule p = .ok r) ∨ step rule p = .error x)
    (hx : ∃ p ∈ is, step rule p = .error x) : step rule (.node m op is) = .error x := by
  have hlist : stepList rule is = .error x := by
    induction is with
    | nil => simp at hx
    | cons p ps ih =>
      obtain ⟨hp, hps⟩ := List.forall_mem_cons.mp h
      rcases hp with ⟨r, hr⟩ | hp
      · have hxs : ∃ q ∈ ps, step rule q = .error x := by
          obtain ⟨q, hq, he⟩ := hx
          rcases List.mem_cons.mp hq with rfl | hq
          · rw [hr] at he
            cases he
          · exact ⟨q, hq, he⟩
        rw [stepList, hr, Outcome.ok_bind, ih hps hxs, Outcome.error_bind]
      · rw [stepList, hp, Outcome.error_bind]
  rw [step, hlist, Outcome.error_bind]

end Optimize

end Gridplan
