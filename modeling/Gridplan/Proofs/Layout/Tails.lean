import Gridplan.Proofs.Formula.Arrays
import Gridplan.Proofs.Layout.Success

namespace Gridplan

namespace Formula

def Ref.height (r : Ref) : Nat := (between r.first.number (r.last.getD r.first).number).length

/-- The number that a term made of counts of rows stands for. -/
def Term.count? : Term → Option Int
  | .int n => some n
  | .call "ROWS" [.ref r] => some r.height
  | .binary " - " t u => do return (← t.count?) - (← u.count?)
  | _ => none

/-- A reference to cells at some distance from another one. -/
structure Shift where
  base : Ref
  down : Int
  right : Int
  height : Int
  width : Int

/-- The reference that a term makes out of another one. -/
def Term.shift? : Term → Option Shift
  | .call "OFFSET" [.ref base, down, right, height, width] => do
    return ⟨base, ← down.count?, ← right.count?, ← height.count?, ← width.count?⟩
  | _ => none

/-- The rows of cells that a moved reference is to. No rows are above the first one of a sheet. -/
def Shift.rows? (s : Shift) : Option (List (List Cell)) :=
  let top := s.base.first.number + s.down
  let left := s.base.first.col + s.right
  if 1 ≤ top ∧ 0 ≤ left then
    some ((List.range s.height.toNat).map fun k ↦ (List.range s.width.toNat).map fun j ↦
      ⟨s.base.sheet, left.toNat + j, top.toNat + k⟩)
  else none

theorem Shift.length_of_rows? {s : Shift} {rows : List (List Cell)} (h : s.rows? = some rows) :
    rows.length = s.height.toNat := by
  simp only [rows?, Option.ite_none_right_eq_some, Option.some.injEq] at h
  rw [← h.2, List.length_map, List.length_range]

namespace Block

variable {b : Block}

def size (b : Block) : Nat := b.range.rowEnd - b.range.row

def dataRows (b : Block) : List (List Cell) :=
  (List.range b.size).map fun k ↦ (List.range b.schema.length).map fun j ↦
    ⟨some b.sheet, b.range.col + j, b.range.row + 2 + k⟩

theorem length_dataRows : b.dataRows.length = b.size := by
  rw [dataRows, List.length_map, List.length_range]

theorem dataRows_drop {n : Nat} (h : n ≤ b.size) : b.dataRows.drop (b.size - n) =
    (List.range n).map fun k ↦ (List.range b.schema.length).map fun j ↦
      ⟨some b.sheet, b.range.col + j, b.range.row + 2 + (b.size - n) + k⟩ := by
  refine List.ext_getElem ?_ fun k hk hk' ↦ ?_
  · rw [List.length_drop, length_dataRows, List.length_map, List.length_range]
    omega
  · simp [dataRows, Nat.add_assoc]

theorem depth_eq_size (hb : b.part = none) : b.depth = .whole b.size := by
  rw [depth, rowEnd_of_whole hb]
  rfl

theorem body_eq_ref (hb : b.part = none) : ∃ r, b.body = .ref r ∧ r.sheet = some b.sheet ∧
    r.first.col = b.range.col ∧ r.first.number = b.range.row + 2 ∧ r.height = max 1 b.size := by
  rw [body, bottom_of_whole hb]
  split
  · next h =>
    have hend : max (b.range.row + 1) b.range.rowEnd = b.range.row + 1 := Extent.whole.inj h.1
    refine ⟨_, rfl, rfl, rfl, rfl, ?_⟩
    simp only [Ref.height, Option.getD_none, between_self, List.length_singleton, size]
    omega
  · refine ⟨_, rfl, rfl, rfl, rfl, ?_⟩
    simp only [Ref.height, Option.getD_some, between, List.length_range', size]
    omega

end Block

end Formula

namespace Layout

open Formula

variable {b : Block}

theorem exists_place_formula {schema : List String} (hs : schema ≠ []) (sheet : String) (last : Nat)
    (rows : Extent) (t : Term) :
    ∃ P, place sheet schema (.whole last) (opening sheet rows schema ++ [put sheet 1 0 t]) = .ok P ∧
      put P.block.sheet 1 0 t ∈ P.edits ∧ Occupies P.block sheet schema last := by
  obtain ⟨P, hP⟩ := succeeds_place.mpr hs
  obtain ⟨hedits, hblock⟩ := place_ensures _ _ _ _ P hP
  refine ⟨P, hP, ?_, hblock⟩
  rw [hedits, hblock.sheet]
  exact List.mem_append_right _ List.mem_cons_self

theorem exists_limit (hb : b.part = none) (hs : b.schema ≠ []) (counter n : Nat) (side : Side) :
    ∃ P, limit counter (.ofNat n) side b = .ok P ∧
      put P.block.sheet 1 0 (limited (.ofNat n) side b) ∈ P.edits := by
  rw [limit_eq_place (Block.depth_eq_size hb)]
  obtain ⟨P, hP, hput, -⟩ := exists_place_formula hs _ _ _ (limited (.ofNat n) side b)
  exact ⟨P, hP, hput⟩

theorem limited_tail (hb : b.part = none) (n : Nat) : ∃ r,
    (limited (.ofNat n) .tail b).shift? =
      some ⟨r, (max 1 b.size : Nat) - n, 0, n, b.schema.length⟩ ∧ r.sheet = some b.sheet ∧
      r.first.col = b.range.col ∧ r.first.number = b.range.row + 2 := by
  obtain ⟨r, hr, hsheet, hcol, hnumber, hheight⟩ := Block.body_eq_ref hb
  refine ⟨r, ?_, hsheet, hcol, hnumber⟩
  simp [limited, hr, Amount.ofNat, Term.shift?, Term.count?, hheight]

theorem shift_rows_iff {s : Shift} {n : Nat} (hsheet : s.base.sheet = some b.sheet)
    (hcol : s.base.first.col = b.range.col) (hnumber : s.base.first.number = b.range.row + 2)
    (hdown : s.down = (max 1 b.size : Nat) - n) (hright : s.right = 0) (hheight : s.height = n)
    (hwidth : s.width = b.schema.length) :
    s.rows? = some (b.dataRows.drop (b.size - n)) ↔ n ≤ b.size := by
  constructor
  · intro h
    have hlength := Shift.length_of_rows? h
    rw [List.length_drop, Block.length_dataRows, hheight, Int.toNat_natCast] at hlength
    omega
  · intro h
    rw [Block.dataRows_drop h]
    have htop : 1 ≤ (s.base.first.number : Int) + s.down := by omega
    have hleft : 0 ≤ (s.base.first.col : Int) + s.right := by omega
    simp only [Shift.rows?, htop, hleft, and_self, if_true, Option.some.injEq]
    rw [hheight, hwidth, Int.toNat_natCast, Int.toNat_natCast, hsheet]
    refine List.map_congr_left fun k hk ↦ List.map_congr_left fun j hj ↦ ?_
    have hk := List.mem_range.mp hk
    congr 1 <;> omega

/-- A limit at the end of a block refers to cells that end with its last row and do not start above
its first row just when it has rows, and as many as asked for. They are the last rows of the block
just when it has as many as asked for. -/
theorem limit_tail_rows (hb : b.part = none) (hs : b.schema ≠ []) (counter n : Nat) :
    ∃ P t s, limit counter (.ofNat n) .tail b = .ok P ∧ put P.block.sheet 1 0 t ∈ P.edits ∧
      t.shift? = some s ∧ (0 ≤ s.down ∧ s.down + s.height = b.size ↔ n ≤ b.size ∧ 0 < b.size) ∧
      (s.rows? = some (b.dataRows.drop (b.size - n)) ↔ n ≤ b.size) := by
  obtain ⟨P, hP, hput⟩ := exists_limit hb hs counter n .tail
  obtain ⟨r, hshift, hr, hcol, hnumber⟩ := limited_tail hb n
  refine ⟨P, _, _, hP, hput, hshift, ?_, shift_rows_iff hr hcol hnumber rfl rfl rfl rfl⟩
  dsimp only
  omega

def pairs (rows : Nat) : Block :=
  .ofRelation "Source_0" ⟨["a", "b"], List.replicate rows [.int 1, .int 2]⟩

theorem limit_tail_rows_pairs : ∃ P t s, limit 1 (.ofNat 2) .tail (pairs 3) = .ok P ∧
    put P.block.sheet 1 0 t ∈ P.edits ∧ t.shift? = some s ∧
    (0 ≤ s.down ∧ s.down + s.height = 3) ∧ s.rows? = some ((pairs 3).dataRows.drop 1) := by
  obtain ⟨P, t, s, hP, ht, hs, hdown, hrows⟩ :=
    limit_tail_rows (b := pairs 3) rfl (List.cons_ne_nil _ _) 1 2
  exact ⟨P, t, s, hP, ht, hs, hdown.mpr (by decide), hrows.mpr (by decide)⟩

/-- The last three of two rows are referred to from the header on. -/
theorem limit_tail_header : ∃ P t s, limit 1 (.ofNat 3) .tail (pairs 2) = .ok P ∧
    put P.block.sheet 1 0 t ∈ P.edits ∧ t.shift? = some s ∧ s.down = -1 ∧
    s.rows? = some ([⟨some "Source_0", 0, 1⟩, ⟨some "Source_0", 1, 1⟩] :: (pairs 2).dataRows) := by
  obtain ⟨P, hP, hput⟩ := exists_limit (b := pairs 2) rfl (List.cons_ne_nil _ _) 1 3 .tail
  exact ⟨P, _, _, hP, hput, rfl, by decide, by decide⟩

end Layout

end Gridplan
