import Gridplan.Grid.Range
import Gridplan.Proofs.Outcome
import Mathlib.Order.Interval.Set.Basic

namespace Gridplan.Range

variable {a b c r : Range} {i j : Int}

/-- The cells of a range, each by its row and column. -/
def cells (r : Range) : Set (Nat × Nat) := {c | r.contains c.1 c.2 = true}

def first (r : Range) : Nat × Nat := (r.row, r.col)

def last (r : Range) : Nat × Nat := (r.rowEnd, r.colEnd)

theorem first_le_last (r : Range) : r.first ≤ r.last := ⟨r.row_le, r.col_le⟩

theorem cells_eq_Icc (r : Range) : r.cells = Set.Icc r.first r.last := by
  ext ⟨row, col⟩
  simp only [cells, contains, first, last, Set.mem_ofPred_eq, Bool.and_eq_true, decide_eq_true_eq,
    Set.mem_Icc, Prod.mk_le_mk]
  tauto

theorem mem_cells {row col : Nat} :
    (row, col) ∈ r.cells ↔ r.row ≤ row ∧ row ≤ r.rowEnd ∧ r.col ≤ col ∧ col ≤ r.colEnd := by
  simp [cells, contains, and_assoc]

theorem first_mem_cells (r : Range) : r.first ∈ r.cells := by
  rw [cells_eq_Icc]
  exact Set.left_mem_Icc.mpr r.first_le_last

theorem ext_corners (hfirst : a.first = b.first) (hlast : a.last = b.last) : a = b := by
  cases a
  cases b
  simp_all [first, last]

theorem cells_subset_iff : a.cells ⊆ b.cells ↔ b.first ≤ a.first ∧ a.last ≤ b.last := by
  rw [cells_eq_Icc, cells_eq_Icc]
  exact Set.Icc_subset_Icc_iff a.first_le_last

theorem cells_injective : Function.Injective cells := by
  intro a b h
  obtain ⟨hfirst, hlast⟩ := cells_subset_iff.mp h.subset
  obtain ⟨hfirst', hlast'⟩ := cells_subset_iff.mp h.superset
  exact ext_corners (le_antisymm hfirst' hfirst) (le_antisymm hlast hlast')

/-- The cells of a range that may be missing. -/
def cellsOf : Option Range → Set (Nat × Nat)
  | none => ∅
  | some r => r.cells

theorem cellsOf_some_ne_empty (r : Range) : cellsOf (some r) ≠ ∅ :=
  Set.Nonempty.ne_empty ⟨r.first, r.first_mem_cells⟩

theorem cellsOf_injective : Function.Injective cellsOf := by
  intro x y h
  cases x with
  | none =>
    cases y with
    | none => rfl
    | some b => exact absurd h.symm b.cellsOf_some_ne_empty
  | some a =>
    cases y with
    | none => exact absurd h a.cellsOf_some_ne_empty
    | some b => exact congrArg some (cells_injective h)

theorem cellsOf_intersect (a b : Range) : cellsOf (a.intersect b) = a.cells ∩ b.cells := by
  rw [cells_eq_Icc a, cells_eq_Icc b, Set.Icc_inter_Icc, intersect]
  split
  · rw [cellsOf, cells_eq_Icc]
    rfl
  · next h => exact (Set.Icc_eq_empty h).symm

theorem cells_of_intersect (h : a.intersect b = some r) : r.cells = a.cells ∩ b.cells := by
  rw [← cellsOf_intersect, h, cellsOf]

theorem intersect_eq_none : a.intersect b = none ↔ a.cells ∩ b.cells = ∅ := by
  rw [← cellsOf_intersect]
  exact cellsOf_injective.eq_iff' rfl |>.symm

theorem cellsOf_bind_intersect (x : Option Range) (c : Range) :
    cellsOf (x.bind (intersect · c)) = cellsOf x ∩ c.cells := by
  cases x with
  | none => exact (Set.empty_inter _).symm
  | some a => exact cellsOf_intersect a c

theorem intersect_comm (a b : Range) : a.intersect b = b.intersect a := by
  apply cellsOf_injective
  rw [cellsOf_intersect, cellsOf_intersect, Set.inter_comm]

theorem intersect_assoc (a b c : Range) :
    (a.intersect b).bind (intersect · c) = (b.intersect c).bind (intersect a ·) := by
  simp only [intersect_comm a]
  apply cellsOf_injective
  rw [cellsOf_bind_intersect, cellsOf_bind_intersect, cellsOf_intersect, cellsOf_intersect,
    Set.inter_right_comm]

theorem intersect_of_subset (h : a.cells ⊆ b.cells) : a.intersect b = some a := by
  apply cellsOf_injective
  rw [cellsOf_intersect, cellsOf, Set.inter_eq_left.mpr h]

theorem first_union (a b : Range) : (a.union b).first = a.first ⊓ b.first := rfl

theorem last_union (a b : Range) : (a.union b).last = a.last ⊔ b.last := rfl

/-- Ranges are ordered by their cells, and the range around two of them is their supremum. -/
instance : SemilatticeSup Range where
  le a b := a.cells ⊆ b.cells
  le_refl a := Set.Subset.refl a.cells
  le_trans _ _ _ := Set.Subset.trans
  le_antisymm _ _ hab hba := cells_injective (Set.Subset.antisymm hab hba)
  sup := union
  le_sup_left a b := by
    refine cells_subset_iff.mpr ⟨?_, ?_⟩
    · exact (first_union a b).trans_le inf_le_left
    · exact le_sup_left.trans_eq (last_union a b).symm
  le_sup_right a b := by
    refine cells_subset_iff.mpr ⟨?_, ?_⟩
    · exact (first_union a b).trans_le inf_le_right
    · exact le_sup_right.trans_eq (last_union a b).symm
  sup_le a b c hac hbc := by
    obtain ⟨hafirst, halast⟩ := cells_subset_iff.mp hac
    obtain ⟨hbfirst, hblast⟩ := cells_subset_iff.mp hbc
    exact cells_subset_iff.mpr ⟨le_inf hafirst hbfirst, sup_le halast hblast⟩

theorem le_iff_cells : a ≤ b ↔ a.cells ⊆ b.cells := Iff.rfl

theorem offset_of_negative (h : (a.row : Int) + i < 0 ∨ (a.col : Int) + j < 0) :
    a.offset i j = .error (.grid .offset) := by
  rw [offset, if_pos h]

theorem offset_of_nonneg (hrow : 0 ≤ (a.row : Int) + i) (hcol : 0 ≤ (a.col : Int) + j) :
    ∃ r, a.offset i j = .ok r ∧ (r.row : Int) = a.row + i ∧ (r.col : Int) = a.col + j ∧
      (r.rowEnd : Int) = a.rowEnd + i ∧ (r.colEnd : Int) = a.colEnd + j := by
  have hrows := a.row_le
  have hcols := a.col_le
  rw [offset, if_neg (by omega), ofCorners, dif_neg (by omega), dif_neg (by omega)]
  refine ⟨_, rfl, ?_, ?_, ?_, ?_⟩ <;> dsimp only <;> omega

/-- Whether one cell is another one moved by so many rows and columns. -/
def Moved (i j : Int) (cell moved : Nat × Nat) : Prop :=
  (moved.1 : Int) = cell.1 + i ∧ (moved.2 : Int) = cell.2 + j

theorem offset_eq_error_iff : (∃ f, a.offset i j = .error f) ↔
    (a.row : Int) + i < 0 ∨ (a.col : Int) + j < 0 := by
  constructor
  · intro hf
    obtain ⟨f, hf⟩ := hf
    by_contra hnot
    obtain ⟨r, hr, -⟩ := offset_of_nonneg (a := a) (i := i) (j := j) (by omega) (by omega)
    rw [hr] at hf
    cases hf
  · intro h
    exact ⟨_, offset_of_negative h⟩

theorem corners_of_offset (h : a.offset i j = .ok r) : Moved i j a.first r.first ∧
    Moved i j a.last r.last := by
  have hpos : ¬((a.row : Int) + i < 0 ∨ (a.col : Int) + j < 0) := by
    intro hneg
    rw [offset_of_negative hneg] at h
    cases h
  obtain ⟨s, hs, hrow, hcol, hrowEnd, hcolEnd⟩ :=
    offset_of_nonneg (a := a) (i := i) (j := j) (by omega) (by omega)
  obtain rfl := Except.ok.inj (hs.symm.trans h)
  exact ⟨⟨hrow, hcol⟩, ⟨hrowEnd, hcolEnd⟩⟩

theorem mem_cells_offset (h : a.offset i j = .ok r) (moved : Nat × Nat) :
    moved ∈ r.cells ↔ ∃ cell ∈ a.cells, Moved i j cell moved := by
  obtain ⟨⟨hrow, hcol⟩, hrowEnd, hcolEnd⟩ := corners_of_offset h
  obtain ⟨row, col⟩ := moved
  simp only [first, last] at hrow hcol hrowEnd hcolEnd
  rw [mem_cells]
  constructor
  · intro hin
    -- the cell that is moved there
    refine ⟨((row - i).toNat, (col - j).toNat), mem_cells.mpr ?_, ?_⟩
    · omega
    · simp only [Moved]
      omega
  · intro hin
    obtain ⟨⟨row', col'⟩, hcell, hmoved⟩ := hin
    rw [mem_cells] at hcell
    simp only [Moved] at hmoved
    omega

theorem offset_offset (h : a.offset i j = .ok r) : r.offset (-i) (-j) = .ok a := by
  obtain ⟨⟨hrow, hcol⟩, hrowEnd, hcolEnd⟩ := corners_of_offset h
  simp only [first, last] at hrow hcol hrowEnd hcolEnd
  obtain ⟨s, hs, hrow', hcol', hrowEnd', hcolEnd'⟩ :=
    offset_of_nonneg (a := r) (i := -i) (j := -j) (by omega) (by omega)
  rw [hs]
  refine congrArg Except.ok (ext_corners (Prod.ext ?_ ?_) (Prod.ext ?_ ?_)) <;>
    simp only [first, last] <;> omega

/-- Ranges and their cells. Two ranges have no common part just when no cell lies in both, and
otherwise the common part has the cells that do; the range around them is the least one with all
their cells. Both are commutative and associative and absorb each other. A range can be moved just
when it stays on the sheet; it then has the cells that are moved, and moving it back gives it
again. -/
theorem cells_algebra (a b : Range) :
    (a.intersect b = none ↔ ∀ cell, ¬(cell ∈ a.cells ∧ cell ∈ b.cells)) ∧
    (∀ r, a.intersect b = some r → ∀ cell, cell ∈ r.cells ↔ cell ∈ a.cells ∧ cell ∈ b.cells) ∧
    (a.cells ⊆ (a.union b).cells ∧ b.cells ⊆ (a.union b).cells ∧
      ∀ c : Range, a.cells ⊆ c.cells → b.cells ⊆ c.cells → (a.union b).cells ⊆ c.cells) ∧
    (a.intersect b = b.intersect a ∧ a.union b = b.union a) ∧
    (∀ c, (a.intersect b).bind (intersect · c) = (b.intersect c).bind (intersect a ·) ∧
      (a.union b).union c = a.union (b.union c)) ∧
    (a.intersect (a.union b) = some a ∧ ∀ r, a.intersect b = some r → a.union r = a) ∧
    ∀ i j : Int, ((∃ f, a.offset i j = .error f) ↔ (a.row : Int) + i < 0 ∨ (a.col : Int) + j < 0) ∧
      ∀ r, a.offset i j = .ok r →
        (∀ moved, moved ∈ r.cells ↔ ∃ cell ∈ a.cells, Moved i j cell moved) ∧
        r.offset (-i) (-j) = .ok a := by
  refine ⟨?_, ?_, ?_, ⟨intersect_comm a b, sup_comm a b⟩, ?_, ⟨?_, ?_⟩, ?_⟩
  · rw [intersect_eq_none, Set.eq_empty_iff_forall_notMem]
    rfl
  · intro r hr cell
    rw [cells_of_intersect hr]
    rfl
  · exact ⟨le_sup_left (a := a), le_sup_right (b := b), fun c ↦ sup_le (c := c)⟩
  · intro c
    exact ⟨intersect_assoc a b c, sup_assoc a b c⟩
  · exact intersect_of_subset (le_sup_left (a := a))
  · intro r hr
    have hle : r ≤ a := le_iff_cells.mpr (cells_of_intersect hr ▸ Set.inter_subset_left)
    exact sup_eq_left.mpr hle
  · intro i j
    exact ⟨offset_eq_error_iff, fun r hr ↦ ⟨mem_cells_offset hr, offset_offset hr⟩⟩

theorem cells_algebra_overlapping : ∃ a b r s : Range,
    Range.new 0 0 (some 9) (some 2) = .ok a ∧ Range.new 4 1 (some 14) (some 3) = .ok b ∧
      a.intersect b = some r ∧ (∀ cell, cell ∈ r.cells ↔ cell ∈ a.cells ∧ cell ∈ b.cells) ∧
      a.union r = a ∧ b.offset (-4) 1 = .ok s ∧ s.offset 4 (-1) = .ok b := by
  obtain ⟨a, ha⟩ : ∃ a, Range.new 0 0 (some 9) (some 2) = .ok a := ⟨_, rfl⟩
  obtain ⟨b, hb⟩ : ∃ b, Range.new 4 1 (some 14) (some 3) = .ok b := ⟨_, rfl⟩
  have hr : ∃ r, a.intersect b = some r := by
    cases ha
    cases hb
    exact ⟨_, rfl⟩
  have hs : ∃ s, b.offset (-4) 1 = .ok s := by
    cases hb
    exact ⟨_, rfl⟩
  obtain ⟨r, hr⟩ := hr
  obtain ⟨s, hs⟩ := hs
  obtain ⟨-, hcells, -, -, -, ⟨-, habsorb⟩, -⟩ := cells_algebra a b
  obtain ⟨-, hback⟩ := ((cells_algebra b a).2.2.2.2.2.2 (-4) 1).2 s hs
  exact ⟨a, b, r, s, ha, hb, hr, hcells r hr, habsorb r hr, hs, hback⟩

end Gridplan.Range
