import Gridplan.Layout.Rows
import Gridplan.Proofs.Formula.Cells
import Gridplan.Proofs.Grid.Address

namespace Gridplan.Formula.Block

variable {b : Block}

theorem render_columnAt (hb : b.part = none) (i : Nat) :
    (b.columnAt i).render = b.sheet ++ "!" ++ (Range.cellText (b.range.row + 1) (b.range.col + i) ++
      ":" ++ Range.cellText b.range.rowEnd (b.range.col + i)) := by
  simp [columnAt, rowEnd_of_whole hb, upTo, Term.render, Ref.render, Corner.render, Range.cellText,
    String.append_assoc]

/-- The rows below the header, or the row below it where there are none. -/
def bodyRange (b : Block) : Range :=
  ⟨b.range.row + 1, b.range.col, max (b.range.row + 1) b.range.rowEnd, b.range.colEnd,
    le_max_left .., b.range.col_le⟩

theorem render_body (hb : b.part = none) :
    b.body.render = b.sheet ++ "!" ++ b.bodyRange.toText := by
  rw [body, bottom_of_whole hb, Range.toText]
  simp only [Extent.whole.injEq, bodyRange, eq_comm (a := b.range.row + 1)]
  split <;>
    simp [upTo, Term.render, Ref.render, Corner.render, Range.cellText, String.append_assoc]

theorem ofText_column (b : Block) (i : Nat) :
    Range.ofText (Range.cellText (b.range.row + 1) (b.range.col + i) ++ ":" ++
        Range.cellText b.range.rowEnd (b.range.col + i)) =
      if h : b.range.row < b.range.rowEnd then
        .ok ⟨b.range.row + 1, b.range.col + i, b.range.rowEnd, b.range.col + i, h, le_rfl⟩
      else .error (.grid .reversed) := by
  rw [Range.ofText_corners]
  split
  · next h => exact Range.ofCorners_eq_ok h le_rfl
  · rw [Range.ofCorners, dif_neg (by omega), dif_pos (by omega)]

/-- The reference to a column denotes this column of what the reference to all rows denotes if there
are rows. The reference to a column of a header alone ends above its first row, and denotes
nothing. -/
theorem columnAt_of_body (hb : b.part = none) {i : Nat} (hi : b.range.col + i ≤ b.range.colEnd) :
    ∃ column rows all, (b.columnAt i).render = b.sheet ++ "!" ++ column ∧
      b.body.render = b.sheet ++ "!" ++ rows ∧ Range.ofText rows = .ok all ∧
      (b.range.row < b.range.rowEnd → ∃ c, Range.ofText column = .ok c ∧
        ∀ row col, c.contains row col = (all.contains row col && decide (col = all.col + i))) ∧
      (b.range.row = b.range.rowEnd → Range.ofText column = .error (.grid .reversed)) := by
  refine ⟨_, _, _, render_columnAt hb i, render_body hb, Range.ofText_toText _, ?_, ?_⟩
  · intro hrow
    rw [ofText_column, dif_pos hrow]
    refine ⟨_, rfl, fun row col ↦ ?_⟩
    have hlast : max (b.range.row + 1) b.range.rowEnd = b.range.rowEnd := max_eq_right hrow
    rw [Bool.eq_iff_iff]
    simp only [Range.contains, bodyRange, hlast, Bool.and_eq_true, decide_eq_true_eq]
    omega
  · intro hrow
    rw [ofText_column, dif_neg hrow.not_lt]

def pairRows : Datum := .list [.list [.int 1, .int 2], .list [.int 3, .int 4]]

theorem columnAt_of_body_rows : ∃ P, Layout.source 0 (some ["a", "b"]) pairRows = .ok P ∧
    P.block.part = none ∧ P.block.range.col + 1 ≤ P.block.range.colEnd ∧
    ∃ column rows all c, (P.block.columnAt 1).render = P.block.sheet ++ "!" ++ column ∧
      P.block.body.render = P.block.sheet ++ "!" ++ rows ∧ Range.ofText rows = .ok all ∧
      Range.ofText column = .ok c ∧
      ∀ row col, c.contains row col = (all.contains row col && decide (col = all.col + 1)) := by
  obtain ⟨P, hP, hb, hi, hrow⟩ : ∃ P, Layout.source 0 (some ["a", "b"]) pairRows = .ok P ∧
      P.block.part = none ∧ P.block.range.col + 1 ≤ P.block.range.colEnd ∧
      P.block.range.row < P.block.range.rowEnd := ⟨_, rfl, rfl, by decide, by decide⟩
  obtain ⟨column, rows, all, hcolumn, hbody, hall, hrows, -⟩ := columnAt_of_body hb hi
  obtain ⟨c, hc, hcells⟩ := hrows hrow
  exact ⟨P, hP, hb, hi, column, rows, all, c, hcolumn, hbody, hall, hc, hcells⟩

/-- The sheet of a source without rows holds a header alone. -/
theorem columnAt_of_header : ∃ P, Layout.source 0 (some ["a", "b"]) (.list []) = .ok P ∧
    ∃ column all, (P.block.columnAt 0).render = P.block.sheet ++ "!" ++ column ∧
      P.block.body.render = P.block.sheet ++ "!" ++ all ∧ (∃ r, Range.ofText all = .ok r) ∧
      ∀ c, Range.ofText column ≠ .ok c := by
  refine ⟨_, rfl, _, _, render_columnAt rfl 0, render_body rfl, ⟨_, Range.ofText_toText _⟩, ?_⟩
  intro c hc
  rw [ofText_column, dif_neg (by decide)] at hc
  cases hc

end Gridplan.Formula.Block
