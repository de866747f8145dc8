import Gridplan.Proofs.Service.Updates

namespace Gridplan

namespace Edit

variable {φ : Type}

/-- The cells of the grid that an edit creates. -/
def gridArea : Edit φ → Int
  | .create _ (.int rows) cols => rows * cols
  | _ => 0

/-- The cells that values count for: as many in each row as in the first one. -/
def valueArea : Edit φ → Int
  | .values _ _ _ d => (d.matrix.length * (d.matrix.headD []).length : Nat)
  | _ => 0

/-- Whether an edit keeps to the grids that edits create: a grid has a whole number of rows, and
values are rows of cells inside the grid of their sheet. -/
def OnGrid (es : List (Edit φ)) : Edit φ → Prop
  | .create _ rows _ => ∃ n, rows = .int n
  | .values sheet row col d => ∃ rows cols lines, .create sheet (.int rows) cols ∈ es ∧
      d.sequence? = some lines ∧ 0 ≤ row ∧ row + lines.length ≤ rows ∧
      ∀ line ∈ lines, ∃ cells, line.sequence? = some cells ∧ 0 ≤ col ∧ col + cells.length ≤ cols
  | _ => True

/-- The cells of all the grids that edits create. -/
def gridCells (es : List (Edit φ)) : Int := (es.map gridArea).sum

/-- The cells that all their values count for. -/
def valueCells (es : List (Edit φ)) : Int := (es.map valueArea).sum

theorem valueCells_nonneg (es : List (Edit φ)) : 0 ≤ valueCells es := by
  refine List.sum_nonneg fun n hn ↦ ?_
  obtain ⟨e, -, rfl⟩ := List.mem_map.mp hn
  cases e with
  | values => exact Int.natCast_nonneg _
  | _ => exact le_rfl

theorem gridCells_add_valueCells (es : List (Edit φ)) :
    gridCells es + valueCells es = (es.map fun e ↦ e.gridArea + e.valueArea).sum :=
  List.sum_map_add.symm

end Edit

namespace Service

open Edit (gridCells valueCells)

variable {es : List (Edit String)} {e : Edit String} {main : Option String} {s : Schedule String}

theorem matrixSize_of_onGrid {sheet : String} {row col : Int} {d : Datum}
    (h : Edit.OnGrid es (.values sheet row col d)) :
    matrixSize d = .ok (d.matrix.length, (d.matrix.headD []).length) := by
  obtain ⟨rows, cols, lines, -, hd, -, -, hlines⟩ := h
  have hmatrix := Datum.matrix_of_sequence? hd
  cases lines with
  | nil =>
    rw [hmatrix]
    cases d with
    | list xs | tuple xs =>
      obtain rfl : xs = [] := Option.some.inj hd
      rfl
    | _ => cases hd
  | cons line lines =>
    obtain ⟨cells, hcells, -⟩ := hlines line List.mem_cons_self
    rw [Datum.matrixSize_of_sequence? hd hcells, hmatrix]
    simp [Datum.items_of_sequence? hcells, Except.toOption]

theorem valueUpdate_of_onGrid (h : e.OnGrid es) : Outcome.Succeeds (valueUpdate e) := by
  cases e with
  | values sheet row col d =>
    rw [valueUpdate]
    split
    · rw [matrixSize_of_onGrid h]
      exact ⟨_, rfl⟩
    · exact ⟨none, rfl⟩
  | _ => exact ⟨none, rfl⟩

theorem cellCount_of_onGrid (h : e.OnGrid es) :
    cellCount e.stage e = .ok (.int (e.gridArea + e.valueArea)) := by
  cases e with
  | create name rows cols =>
    obtain ⟨n, rfl⟩ := h
    simp only [Edit.gridArea, Edit.valueArea, add_zero]
    rfl
  | values sheet row col d =>
    simp only [cellCount, Edit.stage, if_true, matrixSize_of_onGrid h, Edit.gridArea,
      Edit.valueArea, zero_add]
    rfl
  | _ => rfl

theorem foldlM_plus (ns : List Int) (m : Int) :
    (ns.map Number.int).foldlM Number.plus (.int m) = .ok (.int (m + ns.sum)) := by
  induction ns generalizing m with
  | nil => simp
  | cons n ns ih =>
    have hplus : Number.plus (.int m) (.int n) = .ok (.int (m + n)) := rfl
    rw [List.map_cons, List.foldlM_cons, hplus, Outcome.ok_bind, ih, List.sum_cons, add_assoc]

theorem batch_of_mem (h : Schedule.ofEdits es main = .ok s) {b : Batch String} (hb : b ∈ s.batches)
    (he : e ∈ b.edits) : e ∈ es ∧ e.stage = b.stage := by
  have hbatch : ∃ stage, Schedule.batch? stage es = some b := by
    rw [Schedule.batches_ofEdits h] at hb
    simp only [List.mem_append, Option.mem_toList] at hb
    rcases hb with hb | hb | hb | hb <;> exact ⟨_, hb⟩
  obtain ⟨stage, hbatch⟩ := hbatch
  rw [Schedule.stage_of_batch? hbatch]
  exact Schedule.mem_of_batch? hbatch he

/-- A schedule counts for what its edits count for: formulas can be left out of it, and they count
for nothing. -/
theorem sum_edits (h : Schedule.ofEdits es main = .ok s) :
    (s.edits.map fun e ↦ e.gridArea + e.valueArea).sum = gridCells es + valueCells es := by
  have hformulas : ∀ fs : List (Edit String), (∀ e ∈ fs, e.stage = .formulas) →
      (fs.map fun e ↦ e.gridArea + e.valueArea).sum = 0 := by
    intro fs hfs
    refine List.sum_eq_zero fun n hn ↦ ?_
    obtain ⟨e, he, rfl⟩ := List.mem_map.mp hn
    have hstage := hfs e he
    cases e with
    | formula => rfl
    | _ => cases hstage
  have hsorted := hformulas (Schedule.sortFormulas (Schedule.ofStage .formulas es)) fun e he ↦
    (Schedule.mem_ofStage.mp (Schedule.mem_of_mem_sortFormulas he)).2
  have hall := hformulas (Schedule.ofStage .formulas es) fun e he ↦ (Schedule.mem_ofStage.mp he).2
  rw [Edit.gridCells_add_valueCells, ← ((Schedule.stages_perm es).map _).sum_eq,
    Schedule.edits_ofEdits h]
  simp only [List.map_append, List.sum_append, hsorted, hall]

/-- The fault of a schedule whose edits count for too much. -/
def tooLarge (es : List (Edit String)) : Fault :=
  .invalid (.tooManyCells (.int (gridCells es + valueCells es)) maxCells)

theorem checkSize_eq (h : Schedule.ofEdits es main = .ok s) (hes : ∀ e ∈ es, e.OnGrid es) :
    ∃ formulas, checkSize s =
      if maxCells < gridCells es + valueCells es then .error (tooLarge es)
      else if maxFormulas < formulas then .error (.invalid (.tooManyFormulas formulas maxFormulas))
      else .ok () := by
  have hcells : s.batches.mapM (fun b ↦ b.edits.mapM (cellCount b.stage)) =
      (.ok (s.batches.map fun b ↦ b.edits.map fun e ↦ .int (e.gridArea + e.valueArea)) :
        Outcome (List (List Number))) := by
    refine Outcome.mapM_ok fun b hb ↦ Outcome.mapM_ok fun e he ↦ ?_
    obtain ⟨hmem, hstage⟩ := batch_of_mem h hb he
    rw [← hstage]
    exact cellCount_of_onGrid (hes e hmem)
  have hflat : (s.batches.map fun b ↦ b.edits.map fun e ↦
      Number.int (e.gridArea + e.valueArea)).flatten =
        (s.edits.map fun e ↦ e.gridArea + e.valueArea).map .int := by
    rw [Schedule.edits, List.map_map, List.map_flatMap, List.flatMap_def]
    rfl
  refine ⟨((s.batches.filter (·.stage = .formulas)).flatMap fun b ↦
    Schedule.ofStage .formulas b.edits).length, ?_⟩
  rw [checkSize, hcells, Outcome.ok_bind, hflat, foldlM_plus, Outcome.ok_bind, sum_edits h,
    zero_add]
  simp only [Number.compare?, beq_iff_eq, Option.some.injEq, Int.compare_eq_lt, tooLarge]

variable {r : Retry} {fails : Outage} {v : Invalid}

theorem persist_ne_invalid (what : String) (c : Call) (left i : Nat) (log : List Entry) :
    (persist r fails what c left i log).2 ≠ some (.invalid v) := by
  induction left generalizing i log with
  | zero =>
    rw [persist]
    split <;> simp
  | succ left ih =>
    rw [persist]
    split
    · simp
    · split
      · simp
      · exact ih _ _

/-- Only a script that stops of itself ends with a schedule being at fault. -/
theorem perform_ne_invalid {actions : List Action} (h : ∀ f, .stop f ∉ actions) (log : List Entry) :
    (perform r fails actions log).2 ≠ some (.invalid v) := by
  induction actions generalizing log with
  | nil => simp [perform]
  | cons a actions ih =>
    have hrest : ∀ f, .stop f ∉ actions := fun f hf ↦ h f (List.mem_cons_of_mem _ hf)
    cases a with
    | stop f => exact absurd List.mem_cons_self (h f)
    | pause x => exact ih hrest _
    | fetch =>
      rw [perform]
      split
      · exact ih hrest _
      · simp
    | request what c =>
      have hrequest : (request r fails what c log).2 ≠ some (.invalid v) := by
        rw [request]
        split
        · simp
        · exact persist_ne_invalid what c _ 0 log
      rw [perform]
      split
      · exact ih hrest _
      · rename_i hrun
        rwa [hrun] at hrequest

/-- A schedule whose values keep to its grids is refused for its size just when the cells of its
grids and of its values are too many together, and nothing is called then. This agrees with the
grids alone being too large, unless the values make the difference. -/
theorem execute_tooLarge_iff (h : Schedule.ofEdits es main = .ok s) (hes : ∀ e ∈ es, e.OnGrid es)
    (r : Retry) (fails : Outage) (title : String) (delay : Float) (rows cols : Int) :
    let run := execute r fails s title delay rows cols
    let refused := ∃ count limit, run.2 = some (.invalid (.tooManyCells count limit))
    (refused ↔ 10000000 < gridCells es + valueCells es) ∧
      (refused → run = ([], some (.invalid
        (.tooManyCells (.int (gridCells es + valueCells es)) 10000000)))) ∧
      ((refused ↔ 10000000 < gridCells es) ↔
        ¬(gridCells es ≤ 10000000 ∧ 10000000 < gridCells es + valueCells es)) := by
  intro run refused
  obtain ⟨formulas, hsize⟩ := checkSize_eq h hes
  have hlarge : maxCells < gridCells es + valueCells es → run = ([], some (tooLarge es)) := by
    intro hlt
    simp only [run, execute, hsize, if_pos hlt]
  have hsmall : ¬maxCells < gridCells es + valueCells es → ¬refused := by
    rintro hle ⟨count, limit, hrun⟩
    simp only [run, execute, hsize, if_neg hle] at hrun
    split at hrun
    · rename_i f hf
      split at hf
      · obtain rfl := Except.error.inj hf
        cases hrun
      · cases hf
    · have hvalues : ∀ e ∈ es, Outcome.Succeeds (valueUpdate e) := fun e he ↦
        valueUpdate_of_onGrid (hes e he)
      exact perform_ne_invalid (sends_script h hvalues title delay rows cols).ends [] hrun
  have hiff : refused ↔ maxCells < gridCells es + valueCells es := by
    refine ⟨fun hr ↦ by_contra fun hle ↦ hsmall hle hr, fun hlt ↦ ?_⟩
    exact ⟨_, _, congrArg Prod.snd (hlarge hlt)⟩
  have hvalues := Edit.valueCells_nonneg es
  refine ⟨hiff, fun hr ↦ hlarge (hiff.mp hr), ?_⟩
  rw [hiff, maxCells]
  omega

/-- A sheet of ten thousand columns with one value in its corner. -/
def wide (rows : Int) : List (Edit String) :=
  [.create "S" (.int rows) 10000, .values "S" 0 0 (.list [.list [.text "x"]])]

def wideSchedule (rows : Int) : Schedule String :=
  ⟨Stage.all.filterMap (Schedule.batch? · (wide rows)), none⟩

theorem wide_onGrid {rows : Int} (h : 0 < rows) : ∀ e ∈ wide rows, e.OnGrid (wide rows) := by
  refine List.forall_mem_cons.mpr ⟨⟨rows, rfl⟩, List.forall_mem_singleton.mpr ?_⟩
  refine ⟨rows, 10000, _, List.mem_cons_self, rfl, le_rfl, ?_, ?_⟩
  · simpa using Int.add_one_le_of_lt h
  · exact List.forall_mem_singleton.mpr ⟨_, rfl, le_rfl, by simp⟩

theorem execute_tooLarge_iff_wide :
    (∀ rows ∈ [999, 1001], Schedule.ofEdits (wide rows) none = .ok (wideSchedule rows) ∧
      ∀ e ∈ wide rows, e.OnGrid (wide rows)) ∧
    ∀ fails,
      (¬∃ count limit, (execute ⟨5, 1⟩ fails (wideSchedule 999) "T" 0.5 1000 26).2 =
        some (.invalid (.tooManyCells count limit))) ∧
      execute ⟨5, 1⟩ fails (wideSchedule 1001) "T" 0.5 1000 26 =
        ([], some (.invalid (.tooManyCells (.int 10010001) 10000000))) := by
  have hsmall : Schedule.ofEdits (wide 999) none = .ok (wideSchedule 999) := rfl
  have hlarge : Schedule.ofEdits (wide 1001) none = .ok (wideSchedule 1001) := rfl
  have hsmallOn : ∀ e ∈ wide 999, e.OnGrid (wide 999) := wide_onGrid (by decide)
  have hlargeOn : ∀ e ∈ wide 1001, e.OnGrid (wide 1001) := wide_onGrid (by decide)
  refine ⟨?_, fun fails ↦ ⟨?_, ?_⟩⟩
  · exact List.forall_mem_cons.mpr
      ⟨⟨hsmall, hsmallOn⟩, List.forall_mem_singleton.mpr ⟨hlarge, hlargeOn⟩⟩
  · rw [(execute_tooLarge_iff hsmall hsmallOn ⟨5, 1⟩ fails "T" 0.5 1000 26).1]
    decide
  · obtain ⟨hiff, hrun, -⟩ :=
      execute_tooLarge_iff hlarge hlargeOn ⟨5, 1⟩ fails "T" 0.5 1000 26
    exact hrun (hiff.mpr (by decide))

/-- Grids of just as many cells as a service holds are refused when a value is written. -/
theorem execute_refuses_full_grid :
    Schedule.ofEdits (wide 1000) none = .ok (wideSchedule 1000) ∧
      (∀ e ∈ wide 1000, e.OnGrid (wide 1000)) ∧
      ¬((∃ count limit, (execute ⟨5, 1⟩ (fun _ _ ↦ false) (wideSchedule 1000) "T" 0.5 1000 26).2 =
          some (.invalid (.tooManyCells count limit))) ↔ 10000000 < gridCells (wide 1000)) := by
  refine ⟨rfl, wide_onGrid (by decide), fun h ↦ ?_⟩
  have hgrid : gridCells (wide 1000) = 10000000 := rfl
  have hlt := h.mp ⟨.int 10000001, 10000000, rfl⟩
  rw [hgrid] at hlt
  exact lt_irrefl _ hlt

end Service

end Gridplan
