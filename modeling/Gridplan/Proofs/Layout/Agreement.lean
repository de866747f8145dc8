import Gridplan.Plan.Run
import Gridplan.Proofs.Frame.Windows
import Gridplan.Proofs.Layout.Criteria
import Gridplan.Proofs.Layout.Success

namespace Gridplan.Layout

open Formula

variable {E : Engine} {contents : Cell → Datum} {b : Block} {f : Frame} {counter i : Nat}
  {func input output order : String} {partitionBy : List String} {d : Direction} {frame : Datum}
  {P : Placement}

theorem Housed.shown (h : Housed b f) (hc : Carries contents b f) {orderBy : List SortKey}
    {input : Option String}
    (hP : window counter func input output partitionBy orderBy frame b = .ok P)
    (hs : Spreads contents P.edits) :
    Shown contents ⟨b, sheetName .window counter, partitionBy, orderBy⟩ f where
  housed := h
  carries := hc
  copies _ hname _ hi := h.carries_copy hc hP hs hname hi

theorem Housed.exists_put (h : Housed b f) {orderBy : List SortKey} {input : Option String}
    (hP : window counter func input output partitionBy orderBy frame b = .ok P)
    {term : Nat → Outcome Term} (hterm : windowTerm ⟨b, sheetName .window counter, partitionBy,
      orderBy⟩ func input frame = .ok term) (hi : i < f.height) :
    ∃ t, term (i + 2) = .ok t ∧
      put (sheetName .window counter) (i + 1) b.schema.length t ∈ P.edits ∧
      ∀ u, put (sheetName .window counter) (i + 1) b.schema.length u ∈ P.edits → u = t := by
  have hdepth : b.depth = .whole f.height := by rw [h.rooted.depth_eq, h.height]
  obtain ⟨t, ht, hput⟩ := exists_put_window hP hdepth hterm hi
  exact ⟨t, ht, hput, fun u hu ↦ put_window_inj hP hu hput⟩

theorem Housed.exists_ranking (h : Housed b f) (hfunc : func = "rank" ∨ func = "row_number")
    (hin : partitionBy ⊆ b.schema) (ho : order ∈ b.schema) {input : Option String} :
    ∃ P, window counter func input output partitionBy [⟨order, d⟩] frame b = .ok P := by
  refine (succeeds_window h.rooted).mpr ⟨?_, fun _ _ ↦ ⟨hin, List.forall_mem_singleton.mpr ho⟩⟩
  rw [windowSuits, if_pos hfunc]
  trivial

/-- Whether the cells of a column have formulas with given values, one each, from the second row of
the sheet on. -/
def Valued (E : Engine) (contents : Cell → Datum) (es : List Step) (sheet : String) (col n : Nat)
    (value : Nat → Datum) : Prop :=
  ∀ i < n, ∃ t, put sheet (i + 1) col t ∈ es ∧ (∀ u, put sheet (i + 1) col u ∈ es → u = t) ∧
    E.value contents t = some (value i)

theorem run_window (hf : f.Filled b.schema) {column : Column} {value : Nat → Datum}
    (hvalues : f.windowValues (Frame.windowOf func input output partitionBy order d frame) =
      .ok column) (hcolumn : column.toList = (List.range f.height).map value) :
    ∃ g, (Operator.window func (some input) output partitionBy [⟨order, d⟩] frame).run [f] = .ok g ∧
      g.column (.text output) = .ok column ∧ column.length = f.height ∧
      ∀ i < f.height, Frame.cellAt column.toList i = value i := by
  have hlength : column.length = f.height := by
    rw [← Frame.length_toList, hcolumn, List.length_map, List.length_range]
  obtain ⟨g, hg, -, hcol⟩ := hf.window_eq rfl hvalues hlength
  exact ⟨g, hg, hcol, hlength, fun i hi ↦ by simp [hcolumn, Frame.cellAt, hi]⟩

theorem not_succeeds_window (hf : f.Filled b.schema) (ho : order ∈ b.schema)
    (hkind : Frame.orderable (f.columnOf order).toList = false) :
    ¬Outcome.Succeeds ((Operator.window func (some input) output partitionBy [⟨order, d⟩]
      frame).run [f]) := by
  rintro ⟨g, hg⟩
  obtain ⟨column, hcolumn, -⟩ := Outcome.bind_eq_ok.mp hg
  cases (hf.windowValues_kind ho hkind).symm.trans hcolumn

/-- Cells that hold those of a frame in the same columns, two rows further down, on every sheet. -/
def filledFrom (b : Block) (f : Frame) (c : Cell) : Datum :=
  f.cell ((b.schema[c.col]?).getD "") (c.number - 2)

theorem carries_filledFrom (hb : Rooted b) : Carries (filledFrom b f) b f := by
  intro name hname i _
  have hlt := List.idxOf_lt_length_of_mem hname
  simp [filledFrom, hb.2.1, hb.2.2, List.getElem?_eq_getElem hlt]

/-- The copies of the columns are in place, whatever else the formulas of a window are. -/
theorem spreads_filledFrom (h : Housed b f) (hpos : 0 < f.height) {input : Option String}
    {orderBy : List SortKey}
    (hP : window counter func input output partitionBy orderBy frame b = .ok P)
    {term : Nat → Outcome Term} (hterm : windowTerm ⟨b, sheetName .window counter, partitionBy,
      orderBy⟩ func input frame = .ok term)
    (hne : ∀ number t, term number ≠ .ok (spread t)) : Spreads (filledFrom b f) P.edits := by
  intro sheet row col t cells hput hcells i c hc
  obtain ⟨rows, term', puts, -, hterm', hputs, hedits⟩ := edits_window hP
  obtain rfl := Except.ok.inj (hterm.symm.trans hterm')
  rw [hedits, List.mem_append, List.mem_append] at hput
  rcases hput with (hput | hput) | hput
  · simp [opening, header, put] at hput
  · obtain ⟨⟨name, j⟩, hx, hput⟩ := List.mem_map.mp hput
    simp only [put, spread, Edit.formula.injEq, Term.call.injEq, List.cons.injEq, and_true,
      true_and, Nat.cast_inj] at hput
    obtain ⟨rfl, rfl, rfl, rfl⟩ := hput
    rw [Block.columns?_columnAt h.rooted.1, h.cellsAt hpos] at hcells
    have hcells := (List.cons.inj (Option.some.inj hcells)).1
    rw [← hcells, List.getElem?_map, Option.map_eq_some_iff] at hc
    obtain ⟨k, hk, rfl⟩ := hc
    obtain ⟨_, hk⟩ := List.getElem?_eq_some_iff.mp hk
    obtain rfl := (List.getElem_range _).symm.trans hk
    have hname : b.schema[j]? = some name := List.mem_zipIdx_iff_getElem?.mp hx
    have hlt := List.idxOf_lt_length_of_mem (List.mem_of_getElem? hname)
    have hfirst : b.schema[b.schema.idxOf name]? = some name := by
      rw [List.getElem?_eq_getElem hlt, List.getElem_idxOf]
    rw [filledFrom, filledFrom, hname, hfirst, Nat.add_sub_cancel_left, Nat.add_sub_cancel]
  · obtain ⟨j, -, u, hu, hput⟩ := exists_of_forall₂ hputs hput
    simp only [put, Edit.formula.injEq] at hput
    exact absurd (hput.2.2.2.1 ▸ hu) (hne _ t)

theorem rank_ne_spread (w : WindowFrame) (numbered : Bool) (number : Nat) (t : Term) :
    w.rank numbered number ≠ .ok (spread t) := by
  intro h
  obtain ⟨-, h⟩ := WindowFrame.rank_eq_ok.mp h
  cases numbered <;> simp [spread] at h

def plainEngine : Engine where
  meets sign v c :=
    match sign with
    | "<" => c.cellOrder v == .lt
    | "<=" => c.cellOrder v != .gt
    | ">" => c.cellOrder v == .gt
    | ">=" => c.cellOrder v != .lt
    | _ => c.same v
  aggregate func cells :=
    let numbers := cells.filterMap Column.float?
    match func with
    | "SUMIFS" => .float (Column.expanding.summary .sum numbers)
    | "AVERAGEIFS" => .float (Column.expanding.summary .mean numbers)
    | "MINIFS" => .float (Column.expanding.summary .min numbers)
    | _ => .float (Column.expanding.summary .max numbers)

theorem fair_plainEngine (f : Frame) (partitionBy : List String) (order : String) :
    Fair plainEngine f partitionBy order where
  parts _ _ _ _ _ _ := rfl
  ties _ _ _ _ := rfl
  orders := ⟨fun _ _ _ _ ↦ rfl, fun _ _ _ _ ↦ rfl, fun _ _ _ _ ↦ rfl, fun _ _ _ _ ↦ rfl⟩
  rows := ⟨fun _ _ _ _ ↦ rfl, fun _ _ _ _ ↦ rfl, fun _ _ _ _ ↦ rfl, fun _ _ _ _ ↦ rfl⟩

def visits : Frame :=
  ⟨[(.text "a", .mixed [.text "x", .text "x", .text "y", .text "x"]),
    (.text "b", .ints [7, 7, 4, 2])], Frame.numbered 4⟩

def visitsBlock : Block :=
  { sheet := "Source_0", range := { row := 0, col := 0, rowEnd := 4, colEnd := 1 },
    schema := ["a", "b"] }

theorem housed_visits : Housed visitsBlock visits where
  rooted := ⟨rfl, rfl, rfl⟩
  filled := ⟨rfl, by decide, by decide, by decide, by decide⟩
  height := rfl

end Gridplan.Layout
