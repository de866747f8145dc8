import Gridplan.Proofs.Frame.Passing

namespace Gridplan

namespace Frame

variable {f g : Frame} {name : String}

def columnsNamed (f : Frame) (name : String) : List Column :=
  (f.columns.filter (·.1.same (.text name))).map (·.2)

theorem column_eq_of_columnsNamed (h : f.columnsNamed name = g.columnsNamed name) :
    f.column (.text name) = g.column (.text name) := by
  unfold columnsNamed at h
  unfold column
  generalize f.columns.filter (·.1.same (.text name)) = xs at h ⊢
  generalize g.columns.filter (·.1.same (.text name)) = ys at h ⊢
  -- a label is looked up by the number of columns under it: none, one or more
  rcases xs with - | ⟨x, - | ⟨x', xs⟩⟩ <;> rcases ys with - | ⟨y, - | ⟨y', ys⟩⟩ <;> simp_all

end Frame

namespace Expr

variable {f g : Frame}

mutual

theorem evaluate_congr : ∀ e : Expr,
    (∀ n ∈ e.columns, f.column (.text n) = g.column (.text n)) → e.evaluate f = e.evaluate g
  | .column n, h => by rw [evaluate, evaluate, h n (by simp [columns])]
  | .literal v, _ => by rw [evaluate, evaluate]
  | .binary op l r, h => by
    have hl := evaluate_congr l fun n hn ↦ h n (by simp [columns, hn])
    have hr := evaluate_congr r fun n hn ↦ h n (by simp [columns, hn])
    rw [evaluate, evaluate, hl, hr]
  | .unary op e, h => by
    have he := evaluate_congr e fun n hn ↦ h n (by simpa [columns] using hn)
    by_cases hneg : op = "neg"
    · rw [hneg, evaluate, evaluate, he]
    by_cases hnot : op = "not"
    · rw [hnot, evaluate, evaluate, he]
    -- the operand of an unknown operator is not looked at
    rw [evaluate, evaluate] <;> simp [hneg, hnot]
  | .call name args, h => by
    have hargs := evaluateList_congr args fun n hn ↦ h n (by simpa [columns] using hn)
    rw [evaluate, evaluate, hargs]
  | .verbatim t, _ => by rw [evaluate, evaluate] <;> simp
  | .raw d, _ => by rw [evaluate, evaluate] <;> simp

theorem evaluateList_congr : ∀ es : List Expr,
    (∀ n ∈ columnsList es, f.column (.text n) = g.column (.text n)) →
      evaluateList f es = evaluateList g es
  | [], _ => by rw [evaluateList, evaluateList]
  | e :: es, h => by
    have he := evaluate_congr e fun n hn ↦ h n (by simp [columnsList, hn])
    have hes := evaluateList_congr es fun n hn ↦ h n (by simp [columnsList, hn])
    rw [evaluateList, evaluateList, he, hes]

end

/-- Two frames that agree on the columns that an expression names, each of them being in both with
the same cells or in neither, give it the same value or the same fault. -/
theorem evaluate_eq_of_references (e : Expr) (f g : Frame)
    (h : ∀ n ∈ e.references, f.columnsNamed n = g.columnsNamed n) : e.evaluate f = e.evaluate g :=
  evaluate_congr e fun n hn ↦ Frame.column_eq_of_columnsNamed (h n (mem_references.mpr hn))

def unsold : Expr := .unary "not" (.column "sold")

def stock : Frame :=
  ⟨[(.text "price", .ints [4, 9]), (.text "sold", .bools [true, false])], Frame.numbered 2⟩

def repriced : Frame :=
  ⟨[(.text "sold", .bools [true, false]), (.text "price", .mixed [.text "?", .null]),
    (.text "shelf", .ints [1, 1])], Frame.numbered 2⟩

theorem evaluate_eq_of_references_unsold : stock ≠ repriced ∧
    (∀ n ∈ unsold.references, stock.columnsNamed n = repriced.columnsNamed n) ∧
      unsold.evaluate stock = unsold.evaluate repriced := by
  have h : ∀ n ∈ unsold.references, stock.columnsNamed n = repriced.columnsNamed n := by decide
  exact ⟨by decide, h, evaluate_eq_of_references unsold stock repriced h⟩

end Expr

end Gridplan
