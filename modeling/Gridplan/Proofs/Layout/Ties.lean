import Gridplan.Proofs.Frame.Ties
import Gridplan.Proofs.Layout.Agreement

namespace Gridplan.Layout

open Formula

variable {E : Engine} {contents : Cell → Datum} {b : Block} {f : Frame} {counter i : Nat}
  {func output order : String} {partitionBy : List String} {frame : Datum} {P : Placement}

variable {conditional : String} {s : Summary} {w : WindowFrame} {xs : List Float}

def runningTable : List (String × Summary × String) :=
  [("sum", .sum, "SUMIFS"), ("mean", .mean, "AVERAGEIFS"), ("min", .min, "MINIFS"),
    ("max", .max, "MAXIFS")]

theorem mem_runningTable (h : (func, s, conditional) ∈ runningTable) :
    Frame.aggregateOf? func = some s ∧ s ≠ .count ∧ runningFunction? func = some conditional ∧
      conditional ∈ aggregators ∧ func ∉ ["rank", "row_number", "lag", "lead"] := by
  have hall : ∀ x ∈ runningTable, Frame.aggregateOf? x.1 = some x.2.1 ∧ x.2.1 ≠ .count ∧
      runningFunction? x.1 = some x.2.2 ∧ x.2.2 ∈ aggregators ∧
      x.1 ∉ ["rank", "row_number", "lag", "lead"] := by
    decide
  exact hall _ h

/-- Whether a function of an engine makes of cells the aggregate of their numbers. -/
def Totals (E : Engine) (f : Frame) (order : String) (xs : List Float) (s : Summary)
    (conditional : String) : Prop :=
  ∀ rows : List Nat, rows ≠ [] → rows.Nodup → (∀ i ∈ rows, i < f.height) →
    E.aggregate conditional (rows.map (f.cell order)) = .float (Frame.totalOf s xs rows)

theorem Shown.value_rank (h : Shown contents w f) (hE : Fair E f w.partitionBy order)
    (hin : w.partitionBy ⊆ w.block.schema) (hk : w.orderBy = [⟨order, .asc⟩])
    (ho : order ∈ w.block.schema) (hi : i < f.height) {t : Term}
    (ht : w.rank false (i + 2) = .ok t) :
    E.value contents t = some (.int
      (f.rankOf w.partitionBy order i + f.tieCount w.partitionBy .asc order i : Nat)) := by
  obtain ⟨-, rfl⟩ := WindowFrame.rank_eq_ok.mp ht
  rw [if_neg Bool.false_ne_true, h.value_order hE hin hk ho hi false,
    ← h.housed.filled.length_notAfter hin hi, Frame.notAfter, ← List.countP_eq_length_filter]
  rfl

theorem Shown.value_total (h : Shown contents w f) (hE : Fair E f w.partitionBy order)
    (hin : w.partitionBy ⊆ w.block.schema) (hk : w.orderBy = [⟨order, .asc⟩])
    (ho : order ∈ w.block.schema) (hi : i < f.height) (hcond : conditional ∈ aggregators)
    (htotals : Totals E f order xs s conditional) {t : Term}
    (ht : w.running conditional (w.block.columnAt (w.block.schema.idxOf order)) (i + 2) = .ok t) :
    E.value contents t =
      some (.float (Frame.totalOf s xs (f.notAfter w.partitionBy .asc order i))) := by
  obtain ⟨-, rfl⟩ := WindowFrame.running_eq_ok.mp ht
  have hne : w.partitionPairs (i + 2) ++ w.orderPairs false (i + 2) ≠ [] := by
    simp [WindowFrame.orderPairs, hk]
  have hself : i ∈ f.notAfter w.partitionBy .asc order i :=
    h.housed.filled.rowsTo_subset hin hi (h.housed.filled.mem_rowsTo hin hi)
  rw [if_neg hne, h.value_running hE hin hk ho hi hcond ho]
  refine congrArg some (htotals _ (List.ne_nil_of_mem hself) (List.nodup_range.filter _) ?_)
  exact fun j hj ↦ List.mem_range.mp (List.mem_of_mem_filter hj)

theorem windowTerm_running (hfunc : (func, s, conditional) ∈ runningTable) (hname : order ≠ "")
    (hframe : frame = .null ∨ frame = .text runningFrame) (ho : order ∈ w.block.schema) :
    windowTerm w func (some order) frame =
      .ok (w.running conditional (w.block.columnAt (w.block.schema.idxOf order))) := by
  have hinput : inputName func true (some order) = .ok order := by
    unfold inputName
    split
    · next heq => cases heq
    · next heq => exact absurd (Option.some.inj heq) hname
    · next heq => rw [Option.some.inj heq]
  have hplain : ¬(frame.truthy && frame != .text runningFrame) = true := by
    rcases hframe with rfl | rfl <;> decide
  obtain ⟨-, -, hrunning, -, hother⟩ := mem_runningTable hfunc
  simp only [List.mem_cons, List.not_mem_nil, or_false, not_or] at hother
  have haccumulated : windowTerm w func (some order) frame =
      accumulated w func (some order) frame := by
    unfold windowTerm
    split
    · exact absurd rfl hother.1
    · exact absurd rfl hother.2.1
    · exact absurd rfl hother.2.2.1
    · exact absurd rfl hother.2.2.2
    · rfl
  rw [haccumulated, accumulated, hrunning]
  dsimp only
  rw [if_neg hplain, hinput, Outcome.ok_bind, column_of_mem ho]
  rfl

section Compared

variable (E : Engine) (b : Block) (f : Frame) (counter : Nat) (output : String)
  (partitionBy : List String) (order : String) (frame : Datum)

/-- Whether the ranks of a sheet are those of the frame and the number of rows that tie on top. -/
def CountsTies : Prop :=
  ∃ P g column,
    window counter "rank" (some order) output partitionBy [⟨order, .asc⟩] frame b = .ok P ∧
    (Operator.window "rank" (some order) output partitionBy [⟨order, .asc⟩] frame).run [f] = .ok g ∧
    g.column (.text output) = .ok column ∧
    (∀ i < f.height, Frame.cellAt column.toList i = .int (f.rankOf partitionBy order i)) ∧
    ∀ contents, Carries contents b f → Spreads contents P.edits →
      Valued E contents P.edits (sheetName .window counter) b.schema.length f.height fun i ↦
        .int (f.rankOf partitionBy order i + f.tieCount partitionBy .asc order i : Nat)

/-- Whether a running aggregate of a sheet is that of the rows which do not come after a row, and in
the frame that of the rows up to it, unless there are too many partition columns. -/
def TakesTies (func : String) (s : Summary) (conditional : String) (xs : List Float) : Prop :=
  ∃ P, window counter func (some order) output partitionBy [⟨order, .asc⟩] frame b = .ok P ∧
    (∀ contents, Carries contents b f → Spreads contents P.edits →
      Totals E f order xs s conditional →
      Valued E contents P.edits (sheetName .window counter) b.schema.length f.height fun i ↦
        .float (Frame.totalOf s xs (f.notAfter partitionBy .asc order i))) ∧
    if 1 < partitionBy.length ∧ f.height ≠ 0 then
      (Operator.window func (some order) output partitionBy [⟨order, .asc⟩] frame).run [f] =
        .error .kind
    else ∃ g column,
      (Operator.window func (some order) output partitionBy [⟨order, .asc⟩] frame).run [f] = .ok g ∧
      g.column (.text output) = .ok column ∧
      ∀ i < f.height, Frame.cellAt column.toList i =
        .float (Frame.totalOf s xs (f.rowsTo partitionBy .asc order i))

end Compared

theorem counts_ties (hb : Housed b f) (hin : partitionBy ⊆ b.schema) (ho : order ∈ b.schema)
    (hE : Fair E f partitionBy order)
    (hkind : Frame.orderable (f.columnOf order).toList = true) :
    CountsTies E b f counter output partitionBy order frame := by
  obtain ⟨P, hP⟩ : ∃ P, window counter "rank" (some order) output partitionBy [⟨order, .asc⟩]
      frame b = .ok P := hb.exists_ranking (.inl rfl) hin ho
  obtain ⟨column, hvalues, hcolumn⟩ := hb.filled.windowValues_rank hin ho hkind
  obtain ⟨g, hg, hcol, -, hcell⟩ := run_window hb.filled hvalues hcolumn
  refine ⟨P, g, column, hP, hg, hcol, hcell, fun contents hc hs i hi ↦ ?_⟩
  obtain ⟨t, ht, hput, huniq⟩ := hb.exists_put hP rfl hi
  exact ⟨t, hput, huniq, (hb.shown hc hP hs).value_rank hE hin rfl ho hi ht⟩

theorem takes_ties (hb : Housed b f) (hin : partitionBy ⊆ b.schema) (ho : order ∈ b.schema)
    (hE : Fair E f partitionBy order) (hkind : Frame.orderable (f.columnOf order).toList = true)
    (hfunc : (func, s, conditional) ∈ runningTable) (hname : order ≠ "")
    (hframe : frame = .null ∨ frame = .text runningFrame)
    (hxs : (f.columnOf order).floats? = some xs)
    (hfinite : ∀ i < f.height, (Frame.numberAt xs i).isFinite = true) :
    TakesTies E b f counter output partitionBy order frame func s conditional xs := by
  obtain ⟨haggregate, hcount, -, hcond, -⟩ := mem_runningTable hfunc
  let w : WindowFrame := ⟨b, sheetName .window counter, partitionBy, [⟨order, .asc⟩]⟩
  have hterm := windowTerm_running (w := w) hfunc hname hframe ho
  obtain ⟨P, hP⟩ : ∃ P, window counter func (some order) output partitionBy [⟨order, .asc⟩] frame
      b = .ok P := (succeeds_window hb.rooted).mpr
    ⟨succeeds_windowTerm.mp ⟨_, hterm⟩, fun _ _ ↦ ⟨hin, List.forall_mem_singleton.mpr ho⟩⟩
  refine ⟨P, hP, fun contents hc hs htotals i hi ↦ ?_, ?_⟩
  · obtain ⟨t, ht, hput, huniq⟩ := hb.exists_put hP hterm hi
    exact ⟨t, hput, huniq,
      (hb.shown hc hP hs).value_total hE hin rfl ho hi hcond htotals ht⟩
  · have hvalues : f.windowValues
        (Frame.windowOf func order output partitionBy order .asc frame) = _ :=
      hb.filled.windowValues_running hin ho ho hkind haggregate hcount hframe hxs hfinite
    split
    · next hmany =>
      rw [if_pos hmany] at hvalues
      exact congrArg (· >>= _) hvalues
    · next hfew =>
      rw [if_neg hfew] at hvalues
      have hcolumn := Frame.toList_windowColumn_floats ((List.range f.height).map fun i ↦
        Frame.totalOf s xs (f.rowsTo partitionBy .asc order i))
      rw [List.map_map] at hcolumn
      obtain ⟨g, hg, hcol, -, hcell⟩ := run_window hb.filled hvalues hcolumn
      exact ⟨g, _, hg, hcol, hcell⟩

def visitNumbers : List Float := [7, 7, 4, 2].map Float.ofInt

theorem numbers_visits : (∀ i < 4, (Frame.numberAt visitNumbers i).isFinite = true) ∧
    ∀ i < 4, Column.float? (visits.cell "b" i) = some (Frame.numberAt visitNumbers i) := by
  decide +kernel

theorem ties_visits : visits.rankOf ["a"] "b" 0 = 2 ∧ visits.tieCount ["a"] .asc "b" 0 = 1 ∧
    visits.notAfter ["a"] .asc "b" 0 = [0, 1, 3] ∧ visits.tiesBelow ["a"] .asc "b" 0 = [1] := by
  decide +kernel

theorem sums_visits : Frame.totalOf .sum visitNumbers [0, 1, 3] = 16 ∧
    Frame.totalOf .sum visitNumbers [0, 3] = 9 ∧ Frame.totalOf .sum visitNumbers [3, 0] = 9 := by
  decide +kernel

theorem totals_visits : Totals plainEngine visits "b" visitNumbers .sum "SUMIFS" := by
  intro rows _ _ hlt
  have hnumbers : (rows.map (visits.cell "b")).filterMap Column.float? =
      rows.map (Frame.numberAt visitNumbers) := by
    rw [List.filterMap_map, ← List.filterMap_eq_map]
    exact List.filterMap_congr fun i hi ↦ numbers_visits.2 i (hlt i hi)
  rw [Frame.totalOf, ← hnumbers]
  rfl

theorem running_ne_spread (w : WindowFrame) (h : conditional ∈ aggregators) (column : Term)
    (number : Nat) (t : Term) : w.running conditional column number ≠ .ok (spread t) := by
  intro ht
  obtain ⟨-, ht⟩ := WindowFrame.running_eq_ok.mp ht
  obtain ⟨rfl, -⟩ := Term.call.inj ht
  exact absurd h (by decide)

theorem total_rowsTo_visits :
    Frame.totalOf .sum visitNumbers (visits.rowsTo ["a"] .asc "b" 0) = 9 := by
  obtain ⟨-, -, hnotAfter, hbelow⟩ := ties_visits
  have hperm : (visits.rowsTo ["a"] .asc "b" 0).Perm [0, 3] := by
    have hall : (visits.notAfter ["a"] .asc "b" 0).Perm
        (visits.rowsTo ["a"] .asc "b" 0 ++ visits.tiesBelow ["a"] .asc "b" 0) :=
      housed_visits.filled.perm_notAfter (by decide) (by decide)
    rw [hnotAfter, hbelow] at hall
    exact (List.perm_append_right_iff [1]).mp (hall.symm.trans (by decide))
  -- the sort decides which of the two comes first, but the sum does not depend on it
  obtain ⟨x, y, hxy⟩ := List.length_eq_two.mp hperm.length_eq
  rw [hxy, List.cons_perm_iff_perm_erase, List.mem_pair] at hperm
  rw [hxy]
  obtain ⟨rfl | rfl, hperm⟩ := hperm
  · obtain rfl : y = 3 := by simpa using hperm
    exact sums_visits.2.1
  · obtain rfl : y = 0 := by simpa using hperm
    exact sums_visits.2.2

end Gridplan.Layout
