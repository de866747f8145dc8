import Gridplan.Proofs.Service.Updates

namespace Gridplan

def Datum.IsRectangle (d : Datum) (rows cols : Nat) : Prop :=
  ∃ xs, d.sequence? = some xs ∧ xs.length = rows ∧
    ∀ x ∈ xs, ∃ cells, x.sequence? = some cells ∧ cells.length = cols

namespace Service

variable {t : Tabs} {es : List (Edit String)}

theorem valueUpdate_of_isRectangle {d : Datum} {rows cols : Nat} (hd : d.IsRectangle rows cols)
    (hrows : 1 ≤ rows) (sheet : String) (row col : Int) :
    valueUpdate (.values sheet row col d) =
      .ok (some ⟨rangeName (row + 1) (col + 1) (row + rows) (col + cols), d⟩) := by
  obtain ⟨xs, hxs, rfl, hcells⟩ := hd
  cases xs with
  | nil => simp at hrows
  | cons x xs =>
    obtain ⟨cells, hx, rfl⟩ := hcells x List.mem_cons_self
    rw [valueUpdate, Datum.truthy_of_sequence? hxs, Datum.matrixSize_of_sequence? hxs hx]
    rfl

theorem exists_request {w : Writing} {sheet : String} {us : List Update} {i : Nat} {tab : Tab}
    (htab : t.find? sheet = some (i, tab)) (hus : es.filterMapM w.update = .ok us)
    (hne : us ≠ []) :
    ∃ what, .request what (.batch tab.title us w.raw) ∈ writeSheet w t sheet es := by
  rw [writeSheet, htab]
  dsimp only
  rw [hus]
  cases us with
  | nil => exact absurd rfl hne
  | cons u us => exact ⟨_, List.mem_singleton.mpr rfl⟩

theorem exists_batch {w : Writing} {e : Edit String} {u : Update} {i : Nat} {tab : Tab}
    (htab : t.find? e.sheet = some (i, tab)) (he : e ∈ es) (hstage : e.stage = w.stage)
    (hes : ∀ x ∈ es, x.sheet = e.sheet → Outcome.Succeeds (w.update x))
    (hu : w.update e = .ok (some u)) :
    ∃ what us, .request what (.batch tab.title us w.raw) ∈ writeSheets w t es ∧ u ∈ us := by
  have hmine : e ∈ Schedule.ofStage w.stage es := Schedule.mem_ofStage.mpr ⟨he, hstage⟩
  let own := (Schedule.ofStage w.stage es).filter (·.sheet == e.sheet)
  have hown : own.filterMapM w.update = .ok (own.filterMap w.update?) := by
    refine Writing.filterMapM_update fun x hx ↦ ?_
    obtain ⟨hx, hsheet⟩ := List.mem_filter.mp hx
    exact hes x (Schedule.mem_ofStage.mp hx).1 (beq_iff_eq.mp hsheet)
  have hmem : u ∈ own.filterMap w.update? := by
    refine List.mem_filterMap.mpr ⟨e, List.mem_filter.mpr ⟨hmine, beq_self_eq_true _⟩, ?_⟩
    rw [Writing.update?, hu]
    rfl
  obtain ⟨what, hwhat⟩ := exists_request htab hown (List.ne_nil_of_mem hmem)
  have hsheet : e.sheet ∈ Schedule.sheetsOf (Schedule.ofStage w.stage es) :=
    mem_distinct.mpr (List.mem_map_of_mem hmine)
  exact ⟨what, _, List.mem_flatMap.mpr ⟨e.sheet, hsheet, hwhat⟩, hmem⟩

/-- A cell has one address, and a matrix is sent with the address of the range that it fills. -/
theorem address_of_range :
    (∀ row col : Nat, ∃ r, Range.new row col none none = .ok r ∧
      cellName (row + 1) (col + 1) = r.toText) ∧
    ∀ (sheet : String) (row col rows cols : Nat) (d : Datum), d.IsRectangle rows cols →
      1 ≤ rows → 1 ≤ cols →
      ∃ u r, valueUpdate (.values sheet row col d) = .ok (some u) ∧ u.values = d ∧
        Range.new row col (some (row + rows - 1)) (some (col + cols - 1)) = .ok r ∧
        Range.ofText u.range = .ok r ∧
        ∀ (t : Tabs) (i : Nat) (tab : Tab) (es : List (Edit String)),
          t.find? sheet = some (i, tab) → .values sheet row col d ∈ es →
          (∀ e ∈ es, e.sheet = sheet → Outcome.Succeeds (Writing.values.update e)) →
          ∃ what us, .request what (.batch tab.title us true) ∈ writeSheets .values t es ∧
            u ∈ us := by
  refine ⟨fun row col ↦ ?_, fun sheet row col rows cols d hd hrows hcols ↦ ?_⟩
  · refine ⟨⟨row, col, row, col, le_rfl, le_rfl⟩, Range.ofCorners_eq_ok le_rfl le_rfl, ?_⟩
    rw [cellName_eq, Range.toText, if_pos ⟨rfl, rfl⟩]
  · have hu := valueUpdate_of_isRectangle hd hrows sheet row col
    have hrow : (row : Int) + rows - 1 = (row + (rows - 1) : Nat) := by omega
    have hcol : (col : Int) + cols - 1 = (col + (cols - 1) : Nat) := by omega
    refine ⟨_, _, hu, rfl, ?_, ofText_rangeName hrows hcols row col, ?_⟩
    · rw [Range.new, Option.getD_some, Option.getD_some, hrow, hcol]
      exact Range.ofCorners_eq_ok (by omega) (by omega)
    · intro t i tab es htab he hes
      exact exists_batch (w := .values) (e := .values sheet row col d) htab he rfl hes hu

def sixCells : Datum :=
  .list [.list [.int 1, .int 2, .int 3], .list [.text "x", .null, .bool true]]

theorem address_of_range_sixCells :
    sixCells.IsRectangle 2 3 ∧
      ∃ u r, valueUpdate (.values "Data" 4 25 sixCells) = .ok (some u) ∧
        Range.ofText u.range = .ok r ∧ (r.row, r.col, r.rowEnd, r.colEnd) = (4, 25, 5, 27) ∧
        ∃ what us, .request what (.batch "Data" us true) ∈
          writeSheets .values ⟨[⟨"Data", .int 9, 30⟩], [("Data", 0)]⟩
            [.values "Data" 4 25 sixCells] ∧ u ∈ us := by
  have hd : sixCells.IsRectangle 2 3 := by
    refine ⟨_, rfl, rfl, fun x hx ↦ ?_⟩
    obtain rfl | rfl := List.mem_pair.mp hx <;> exact ⟨_, rfl, rfl⟩
  obtain ⟨u, r, hu, -, hr, hread, hsent⟩ :=
    address_of_range.2 "Data" 4 25 2 3 sixCells hd (by decide) (by decide)
  refine ⟨hd, u, r, hu, hread, ?_, ?_⟩
  · cases hr
    rfl
  · refine hsent _ 0 ⟨"Data", .int 9, 30⟩ _ rfl (List.mem_singleton.mpr rfl) fun e he _ ↦ ?_
    rw [List.mem_singleton.mp he]
    exact ⟨_, hu⟩

end Service

end Gridplan
