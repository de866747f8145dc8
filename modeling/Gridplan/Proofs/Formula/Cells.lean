import Gridplan.Formula.Block
import Mathlib.Tactic

namespace Gridplan.Formula

/-- A cell: its sheet, if one is named, its column counted from zero and the number of its row. -/
structure Cell where
  sheet : Option String
  col : Nat
  number : Nat
deriving DecidableEq

def Cell.below (c : Cell) : Cell := { c with number := c.number + 1 }

def between (a b : Nat) : List Nat := List.range' (min a b) (max a b - min a b + 1)

theorem between_of_le {a b : Nat} (h : a ≤ b) : between a b = List.range' a (b - a + 1) := by
  rw [between, min_eq_left h, max_eq_right h]

@[simp] theorem between_self (a : Nat) : between a a = [a] := by simp [between]

theorem map_succ_between (a b : Nat) : (between a b).map (· + 1) = between (a + 1) (b + 1) := by
  simp only [between, Nat.add_comm _ 1, List.map_add_range']
  congr 1 <;> omega

def stretch (sheet : Option String) (top bottom col : Nat) : List Cell :=
  (between top bottom).map fun n ↦ ⟨sheet, col, n⟩

section Stretch

variable {sheet : Option String} {top bottom col : Nat}

theorem map_below_stretch :
    (stretch sheet top bottom col).map Cell.below = stretch sheet (top + 1) (bottom + 1) col := by
  simp only [stretch, ← map_succ_between, List.map_map]
  rfl

theorem map_number_stretch :
    (stretch sheet top bottom col).map (·.number) = between top bottom := by
  simp [stretch, Function.comp_def]

theorem stretch_injective : Function.Injective (stretch sheet top bottom) := by
  intro c d h
  have hhead := congrArg (fun cells ↦ cells.head?.map (·.col)) h
  simpa [stretch, between, List.range'_succ] using hhead

theorem stretch_ne_below {other : Nat} :
    stretch sheet top bottom col ≠ stretch sheet (top + 1) (bottom + 1) other := by
  intro h
  have hnumbers := congrArg (List.map (·.number)) h
  rw [map_number_stretch, map_number_stretch, ← map_succ_between] at hnumbers
  have hhead := congrArg List.head? hnumbers
  simp [between, List.range'_succ] at hhead

end Stretch

def Ref.columns (r : Ref) : List (List Cell) :=
  let last := r.last.getD r.first
  (between r.first.col last.col).map (stretch r.sheet r.first.number last.number)

namespace Term

mutual

/-- The columns of cells that a term stands for, if it is made of references only. -/
def columns? : Term → Option (List (List Cell))
  | .ref r => some r.columns
  | .beside ts => columnsList? ts
  | _ => none

def columnsList? : List Term → Option (List (List Cell))
  | [] => some []
  | t :: ts => do return (← columns? t) ++ (← columnsList? ts)

end

theorem columns?_beside {α : Type} {xs : List α} {f : α → Term} {g : α → List (List Cell)}
    (h : ∀ x ∈ xs, (f x).columns? = some (g x)) :
    (Term.beside (xs.map f)).columns? = some (xs.flatMap g) := by
  rw [columns?]
  induction xs with
  | nil => rfl
  | cons x xs ih =>
    rw [List.map_cons, columnsList?, h x (by simp), ih fun y hy ↦ h y (by simp [hy])]
    rfl

end Term

namespace Block

variable {b : Block}

theorem columns?_upTo (first : Corner) (col number : Nat) :
    (b.upTo first col (.whole number)).columns? =
      some ((between first.col col).map (stretch (some b.sheet) first.number number)) := rfl

theorem rowEnd_of_whole (h : b.part = none) : b.rowEnd = .whole b.range.rowEnd := by
  rw [rowEnd, h]

theorem bottom_of_whole (h : b.part = none) : Extent.most (.whole (b.range.row + 1)) b.rowEnd =
    .whole (max (b.range.row + 1) b.range.rowEnd) := by
  rw [rowEnd_of_whole h, Extent.most]

def cellsAt (b : Block) (i : Nat) : List Cell :=
  stretch (some b.sheet) (b.range.row + 2) (b.range.rowEnd + 1) (b.range.col + i)

theorem cellsAt_injective : Function.Injective b.cellsAt :=
  stretch_injective.comp (add_right_injective b.range.col)

theorem columns?_columnAt (h : b.part = none) (i : Nat) :
    (b.columnAt i).columns? = some [b.cellsAt i] := by
  rw [columnAt, rowEnd_of_whole h, Extent.succ_whole, columns?_upTo, between_self]
  rfl

end Block

end Gridplan.Formula
