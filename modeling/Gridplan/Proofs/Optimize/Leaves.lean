import Gridplan.Proofs.Optimize.Passes

namespace Gridplan

def Operator.leaf? : Operator → Option (String × Option (List String))
  | .source id schema _ => some (id, schema)
  | _ => none

theorem Operator.leaf?_filed (op : Operator) : op.filed.leaf? = op.leaf? := by
  cases op <;> rfl

namespace Plan

variable {m : Option Nat} {op : Operator} {is js : List Plan}

def leaves (p : Plan) : List (String × Option (List String)) :=
  p.occurrences.filterMap (·.op.leaf?)

theorem leaves_node (m : Option Nat) (op : Operator) (is : List Plan) :
    leaves (.node m op is) = op.leaf?.toList ++ is.flatMap leaves := by
  have his : (is.flatMap occurrences).filterMap (·.op.leaf?) = is.flatMap leaves :=
    List.filterMap_flatMap ..
  rw [leaves, occurrences_node, List.filterMap_cons, his, Plan.op]
  cases op.leaf? <;> rfl

theorem sizeList_eq (is : List Plan) : sizeList is = (is.map size).sum := by
  induction is with
  | nil => rfl
  | cons p ps ih => rw [sizeList, ih, List.map_cons, List.sum_cons]

theorem size_node (m : Option Nat) (op : Operator) (is : List Plan) :
    size (.node m op is) = (is.map size).sum + 1 := by
  rw [size, sizeList_eq]

structure Trims (p q : Plan) : Prop where
  leaves : q.leaves = p.leaves
  size : q.size ≤ p.size

theorem Trims.refl (p : Plan) : Trims p p := ⟨rfl, le_rfl⟩

theorem Trims.trans {p q r : Plan} (h : Trims p q) (h' : Trims q r) : Trims p r :=
  ⟨h'.leaves.trans h.leaves, h'.size.trans h.size⟩

theorem Trims.inputs (h : List.Forall₂ Trims is js) :
    js.flatMap Plan.leaves = is.flatMap Plan.leaves ∧
      (js.map Plan.size).sum ≤ (is.map Plan.size).sum := by
  induction h with
  | nil => exact ⟨rfl, le_rfl⟩
  | cons h _ ih =>
    simp only [List.flatMap_cons, List.map_cons, List.sum_cons]
    exact ⟨by rw [h.leaves, ih.1], Nat.add_le_add h.size ih.2⟩

theorem Trims.node {k : Option Nat} (h : List.Forall₂ Trims is js) :
    Trims (.node m op is) (.node k op js) := by
  obtain ⟨hleaves, hsize⟩ := Trims.inputs h
  exact ⟨by rw [leaves_node, leaves_node, hleaves], by rw [size_node, size_node]; omega⟩

theorem trims_filed (p : Plan) : Trims p p.filed := by
  induction p with
  | node m op is ih =>
    have his : Trims (.node m op is) (.node none op (is.map filed)) :=
      .node (List.forall₂_map_right_iff.mpr (List.forall₂_same.mpr ih))
    rw [filed_node]
    refine his.trans ⟨?_, ?_⟩
    · rw [leaves_node, leaves_node, Operator.leaf?_filed]
    · rw [size_node, size_node]

end Plan

namespace Optimize

open Plan

variable {m : Option Nat} {op : Operator} {is : List Plan} {p q : Plan}

theorem Rewrite.trims (h : Rewrite op is q) : Trims (.node m op is) q := by
  cases h <;> constructor <;> simp [fresh, leaves_node, size_node, Operator.leaf?]

theorem preserved_trims : Preserved Trims where
  refl := Trims.refl
  trans := fun _ _ _ ↦ Trims.trans
  rewrite := fun m _ _ _ _ _ hjs hq ↦ (Trims.node (k := m) hjs).trans hq.trims
  rebuild := fun m _ _ _ _ hjs ↦ (Trims.node (k := m) hjs).trans (trims_filed _)

/-- The passes together keep the sources of a plan in their order, and make it no larger. -/
theorem optimize_trims (hp : p.Built) (h : p.optimize = .ok q) :
    q.leaves = p.leaves ∧ q.size ≤ p.size := by
  obtain ⟨-, htrims⟩ := optimize_preserves preserved_trims hp h
  exact ⟨htrims.leaves, htrims.size⟩

def paired : Plan :=
  .fresh (.join ["a"] ["a"] .inner (some "_x", some "_y"))
    [.fresh (.limit 5 .head) [.fresh (.sort [⟨"a", .asc⟩] none none)
      [.fresh (.source "s" (some ["a"]) none) []]],
    .fresh (.select ["a"] none) [.fresh (.select ["a", "b"] none)
      [.fresh (.source "t" (some ["a", "b", "c"]) none) []]]]

theorem optimize_trims_paired : paired.Built ∧ ∃ q, paired.optimize = .ok q ∧
    q.leaves = [("s", some ["a"]), ("t", some ["a", "b", "c"])] ∧ q.size ≤ 7 := by
  have hp : paired.Built := by
    simp [built_node, paired, fresh, Operator.isTyped, Operator.Accepts, Offers, schema?]
  obtain ⟨q, hq⟩ := Outcome.succeeds_of_isOk (x := paired.optimize) (by decide +kernel)
  obtain ⟨hleaves, hsize⟩ := optimize_trims hp hq
  exact ⟨hp, q, hq, hleaves.trans rfl, hsize⟩

end Optimize

end Gridplan
