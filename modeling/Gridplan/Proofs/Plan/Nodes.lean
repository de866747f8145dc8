import Gridplan.Plan.Basic
import Mathlib.Tactic

namespace Gridplan

theorem exists_of_forall₂ {α β : Type} {R : α → β → Prop} {xs : List α} {ys : List β} {y : β}
    (h : List.Forall₂ R xs ys) (hy : y ∈ ys) : ∃ x ∈ xs, R x y := by
  induction h with
  | nil => cases hy
  | cons hxy _ ih =>
    rcases List.mem_cons.mp hy with rfl | hy
    · exact ⟨_, by simp, hxy⟩
    · obtain ⟨x, hx, h⟩ := ih hy
      exact ⟨x, by simp [hx], h⟩

theorem mapM_eq_some_forall₂ {α β : Type} {f : α → Option β} {xs : List α} {ys : List β}
    (h : xs.mapM f = some ys) : List.Forall₂ (fun x y ↦ f x = some y) xs ys := by
  induction xs generalizing ys with
  | nil =>
    cases h
    exact .nil
  | cons x xs ih =>
    simp only [List.mapM_cons, Option.bind_eq_bind, Option.bind_eq_some_iff, Option.pure_def,
      Option.some.injEq] at h
    obtain ⟨y, hy, zs, hzs, rfl⟩ := h
    exact .cons hy (ih hzs)

theorem forall_mem_of_forall₂ {α β : Type} {Q : β → Prop} {xs : List α} {ys : List β}
    (h : List.Forall₂ (fun _ ↦ Q) xs ys) : ∀ y ∈ ys, Q y := fun _ hy ↦
  (exists_of_forall₂ h hy).choose_spec.2

theorem map_eq_map_of_forall₂ {α β γ : Type} {f : α → γ} {g : β → γ} {xs : List α} {ys : List β}
    (h : List.Forall₂ (fun x y ↦ g y = f x) xs ys) : ys.map g = xs.map f := by
  induction h with
  | nil => rfl
  | cons hxy _ ih => rw [List.map_cons, List.map_cons, hxy, ih]

theorem eq_map_of_cons {α β : Type} {f : α → β} {g : List α → List β} (hnil : g [] = [])
    (hcons : ∀ x xs, g (x :: xs) = f x :: g xs) (xs : List α) : g xs = xs.map f := by
  induction xs with
  | nil => exact hnil
  | cons x xs ih => rw [hcons, ih, List.map_cons]

namespace Plan

variable {P Q : Operator → List Plan → Prop} {is : List Plan}

mutual

@[induction_eliminator] theorem induct {P : Plan → Prop}
    (node : ∀ m op is, (∀ q ∈ is, P q) → P (.node m op is)) : ∀ p, P p
  | .node m op is => node m op is (inductList node is)

theorem inductList {P : Plan → Prop} (node : ∀ m op is, (∀ q ∈ is, P q) → P (.node m op is)) :
    ∀ is : List Plan, ∀ q ∈ is, P q
  | [] => fun _ hq ↦ absurd hq List.not_mem_nil
  | p :: ps => List.forall_mem_cons.mpr ⟨induct node p, inductList node ps⟩

end

mutual

def All (P : Operator → List Plan → Prop) : Plan → Prop
  | .node _ op is => P op is ∧ AllList P is

def AllList (P : Operator → List Plan → Prop) : List Plan → Prop
  | [] => True
  | p :: ps => All P p ∧ AllList P ps

end

theorem allList_iff {P : Operator → List Plan → Prop} : AllList P is ↔ ∀ q ∈ is, All P q := by
  induction is with
  | nil => simp [AllList]
  | cons p ps ih => simp [AllList, ih]

theorem all_node {P : Operator → List Plan → Prop} {m : Option Nat} {op : Operator} :
    All P (.node m op is) ↔ P op is ∧ ∀ q ∈ is, All P q := by
  rw [All, allList_iff]

theorem All.mono (h : ∀ op is, P op is → Q op is) {p : Plan} (hp : p.All P) : p.All Q := by
  induction p with
  | node m op is ih =>
    obtain ⟨hop, his⟩ := all_node.mp hp
    exact all_node.mpr ⟨h op is hop, fun q hq ↦ ih q hq (his q hq)⟩

theorem all_and {p : Plan} : (p.All fun op is ↦ P op is ∧ Q op is) ↔ p.All P ∧ p.All Q := by
  induction p with
  | node m op is ih =>
    have his : (∀ q ∈ is, q.All fun op is ↦ P op is ∧ Q op is) ↔
        (∀ q ∈ is, q.All P) ∧ ∀ q ∈ is, q.All Q :=
      (forall₂_congr ih).trans forall₂_and
    rw [all_node, all_node, all_node, his]
    tauto

/-- A plan that is made from another one node by node has what holds of the nodes that are made. -/
theorem All.remade {g : Plan → Plan} {f : Operator → Operator}
    (hg : ∀ m op is, g (.node m op is) = .node none (f op) (is.map g))
    (h : ∀ op is, P op is → Q (f op) (is.map g)) {p : Plan} (hp : p.All P) : (g p).All Q := by
  induction p with
  | node m op is ih =>
    obtain ⟨hop, his⟩ := all_node.mp hp
    rw [hg]
    exact all_node.mpr ⟨h op is hop, List.forall_mem_map.mpr fun q hq ↦ ih q hq (his q hq)⟩

mutual

def any (f : Operator → List Plan → Bool) : Plan → Bool
  | .node _ op is => f op is || anyList f is

def anyList (f : Operator → List Plan → Bool) : List Plan → Bool
  | [] => false
  | p :: ps => any f p || anyList f ps

end

theorem anyList_eq (f : Operator → List Plan → Bool) (is : List Plan) :
    anyList f is = List.any is (any f) := by
  induction is with
  | nil => rfl
  | cons p ps ih => rw [anyList, ih, List.any_cons]

theorem list_any_congr {f g : Plan → Bool} (h : ∀ q ∈ is, f q = g q) : is.any f = is.any g := by
  rw [Bool.eq_iff_iff, List.any_eq_true, List.any_eq_true]
  exact exists_congr fun q ↦ and_congr_right fun hq ↦ by rw [h q hq]

theorem any_node (f : Operator → List Plan → Bool) (m : Option Nat) (op : Operator)
    (is : List Plan) : any f (.node m op is) = (f op is || List.any is (any f)) := by
  rw [any, anyList_eq]

theorem any_eq (f : Operator → List Plan → Bool) (p : Plan) :
    p.any f = (f p.op p.inputs || p.inputs.any (any f)) := by
  obtain ⟨m, op, is⟩ := p
  exact any_node f m op is

theorem any_eq_false_iff {f : Operator → List Plan → Bool} {p : Plan} :
    p.any f = false ↔ p.All fun op is ↦ f op is = false := by
  induction p with
  | node m op is ih =>
    rw [any_node, Bool.or_eq_false_iff, List.any_eq_false, all_node]
    refine and_congr_right fun _ ↦ forall₂_congr fun q hq ↦ ?_
    rw [Bool.not_eq_true, ih q hq]

end Plan

end Gridplan
