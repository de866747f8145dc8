import Gridplan.Proofs.Grid.Address
import Gridplan.Proofs.Layout.Windows

namespace Gridplan.Layout

open Formula

variable {counter : Nat} {func output : String} {input : Option String}
  {partitionBy : List String} {orderBy : List SortKey} {frame : Datum} {b : Block} {P : Placement}

def anchor (sheet : String) (i number : Nat) : Term := cell sheet (i + 1) number

def lookFrom (t : Term) (delta : Int) : Term :=
  .call "IFERROR" [.call "OFFSET" [t, .int delta, .int 0], blank]

theorem formula_lookFrom (sheet : String) (i row : Nat) (delta : Int) :
    (lookFrom (anchor sheet i (row + 1)) delta).formula =
      "=IFERROR(OFFSET(" ++ sheet ++ "!" ++ Range.cellText row (i + 1) ++ ", " ++ toString delta ++
        ", 0), \"\")" := by
  have hzero : toString (0 : Int) = "0" := rfl
  rw [← String.toList_inj]
  simp [lookFrom, anchor, cell, blank, Term.formula, Term.render, Term.renderList, Ref.render,
    Corner.render, Range.cellText, hzero]

theorem shifted_eq_ok {w : WindowFrame} {term : Nat → Outcome Term}
    (h : shifted w func input frame = .ok term) :
    ∃ name offset, input = some name ∧ name ∈ w.block.schema ∧ distance frame = .ok offset ∧
      ∀ number, term number = .ok (lookFrom (anchor w.sheet (w.block.schema.idxOf name) number)
        (if func = "lead" then offset else -offset)) := by
  unfold shifted at h
  dsimp only at h
  split at h
  · cases h
  · obtain ⟨name, hname, h⟩ := Outcome.bind_eq_ok.mp h
    obtain ⟨offset, hoffset, h⟩ := Outcome.bind_eq_ok.mp h
    obtain ⟨i, hi, h⟩ := Outcome.bind_eq_ok.mp h
    obtain rfl := Except.ok.inj h
    have hmem : name ∈ w.block.schema := succeeds_position.mp ⟨i, hi⟩
    obtain rfl := Except.ok.inj (hi.symm.trans (position_of_mem hmem))
    exact ⟨name, offset, input_of_inputName hname, hmem, hoffset, fun number ↦ rfl⟩

/-- The formula of each row of a lag or a lead looks from the cell of its row in the column after
the input column, and so never from the cell of the input column. -/
theorem window_anchored (hfunc : func = "lag" ∨ func = "lead")
    (h : window counter func input output partitionBy orderBy frame b = .ok P) :
    ∃ name offset rows, input = some name ∧ name ∈ b.schema ∧ distance frame = .ok offset ∧
      b.depth = .whole rows ∧ ∀ i < rows, ∃ t address r,
        put (sheetName .window counter) (i + 1) b.schema.length t ∈ P.edits ∧
        (∀ u, put (sheetName .window counter) (i + 1) b.schema.length u ∈ P.edits → u = t) ∧
        t.formula = "=IFERROR(OFFSET(" ++ sheetName .window counter ++ "!" ++ address ++ ", " ++
          toString (if func = "lead" then offset else -offset) ++ ", 0), \"\")" ∧
        Range.ofText address = .ok r ∧ r.row = i + 1 ∧ r.rowEnd = i + 1 ∧
        r.col = b.schema.idxOf name + 1 ∧ r.colEnd = b.schema.idxOf name + 1 := by
  obtain ⟨rows, term, -, hrows, hterm, -, -⟩ := edits_window h
  have hshifted : shifted ⟨b, sheetName .window counter, partitionBy, orderBy⟩ func input frame =
      .ok term := by
    rcases hfunc with rfl | rfl <;> exact hterm
  obtain ⟨name, offset, hinput, hmem, hoffset, hterms⟩ := shifted_eq_ok hshifted
  refine ⟨name, offset, rows, hinput, hmem, hoffset, hrows, fun i hi ↦ ?_⟩
  obtain ⟨t, ht, hput⟩ := exists_put_window h hrows hterm hi
  obtain rfl := Except.ok.inj ((hterms _).symm.trans ht)
  have haddress := (Range.ofText_cellText (i + 1) (b.schema.idxOf name + 1)).trans
    (Range.ofCorners_eq_ok le_rfl le_rfl)
  exact ⟨_, _, _, hput, fun u hu ↦ put_window_inj h hu hput, formula_lookFrom .., haddress, rfl, rfl,
    rfl, rfl⟩

theorem window_anchored_ledger : ∃ P t address r,
    window 1 "lead" (some "c") "n" [] [⟨"a", .asc⟩] (.text "2") ledger = .ok P ∧
    put "Window_1" 2 3 t ∈ P.edits ∧
    t.formula = "=IFERROR(OFFSET(Window_1!" ++ address ++ ", 2, 0), \"\")" ∧
    Range.ofText address = .ok r ∧ r.row = 2 ∧ r.col = ledger.schema.idxOf "c" + 1 := by
  obtain ⟨P, hP⟩ : ∃ P, window 1 "lead" (some "c") "n" [] [⟨"a", .asc⟩] (.text "2") ledger = .ok P :=
    ⟨_, rfl⟩
  obtain ⟨name, offset, rows, hname, -, hoffset, hrows, hall⟩ := window_anchored (.inr rfl) hP
  obtain rfl := Option.some.inj hname
  obtain rfl : 2 = offset := Except.ok.inj hoffset
  obtain rfl : 2 = rows := Extent.whole.inj hrows
  obtain ⟨t, address, r, hput, -, hformula, hr, hrow, -, hcol, -⟩ := hall 1 (by decide)
  have hsheet : sheetName .window 1 = "Window_1" := by decide
  have hoffset : toString (if "lead" = "lead" then (2 : Int) else -2) = "2" := by decide
  refine ⟨P, t, address, r, hP, hput, ?_, hr, hrow, hcol⟩
  rw [hformula, hsheet, hoffset, ← String.toList_inj]
  simp

/-- The first column of two rows, looked at one row up, is looked for in the second column. -/
theorem window_lagged : ∃ P t r,
    window 1 "lag" (some "a") "p" [] [⟨"a", .asc⟩] .null ledger = .ok P ∧
    put "Window_1" 1 3 t ∈ P.edits ∧
    t.formula = "=IFERROR(OFFSET(Window_1!B2, -1, 0), \"\")" ∧
    Range.ofText "B2" = .ok r ∧ r.col ≠ ledger.schema.idxOf "a" := by
  obtain ⟨P, hP⟩ : ∃ P, window 1 "lag" (some "a") "p" [] [⟨"a", .asc⟩] .null ledger = .ok P :=
    ⟨_, rfl⟩
  obtain ⟨t, ht, hput⟩ := exists_put_window hP rfl rfl (show 0 < 2 by decide)
  obtain rfl := Except.ok.inj ht
  exact ⟨P, _, _, hP, hput, by decide +kernel, rfl, by decide⟩

end Gridplan.Layout
