import Gridplan.Proofs.Formula.Values
import Gridplan.Proofs.Frame.Places
import Gridplan.Proofs.Layout.Windows

namespace Gridplan.Layout

open Formula

def Carries (contents : Cell → Datum) (b : Block) (f : Frame) : Prop :=
  ∀ name ∈ b.schema, ∀ i < f.height,
    contents ⟨some b.sheet, b.range.col + b.schema.idxOf name, b.range.row + 2 + i⟩ = f.cell name i

/-- Whether the cells that a formula copies a column to hold what the column does. -/
def Spreads (contents : Cell → Datum) (es : List Step) : Prop :=
  ∀ sheet row col t cells, put sheet row col (spread t) ∈ es → t.columns? = some [cells] →
    ∀ (i : Nat) c, cells[i]? = some c → contents ⟨some sheet, col, row + 1 + i⟩ = contents c

/-- Whether a block is that of a frame: it starts at the first cell and has a row for each row. -/
structure Housed (b : Block) (f : Frame) : Prop where
  rooted : Rooted b
  filled : f.Filled b.schema
  height : b.range.rowEnd = f.height

section Reading

variable {contents : Cell → Datum} {b : Block} {f : Frame} {name : String} {i r : Nat}

theorem cellsAt_of_rooted (hb : Rooted b) (j : Nat) (hne : b.range.rowEnd ≠ 0) :
    b.cellsAt j = (List.range b.range.rowEnd).map fun i ↦ ⟨some b.sheet, j, i + 2⟩ := by
  obtain ⟨-, hrow, hcol⟩ := hb
  have hnumber : b.range.rowEnd + 1 - 2 + 1 = b.range.rowEnd := by omega
  rw [Block.cellsAt, stretch, hrow, hcol, between_of_le (by omega), Nat.zero_add, hnumber,
    List.range'_eq_map_range, List.map_map, Nat.zero_add]
  exact List.map_congr_left fun i _ ↦ by simp [Nat.add_comm]

theorem Housed.cellsAt (h : Housed b f) (hr : r < f.height) (j : Nat) :
    b.cellsAt j = (List.range f.height).map fun i ↦ ⟨some b.sheet, j, i + 2⟩ := by
  rw [cellsAt_of_rooted h.rooted j (by rw [h.height]; omega), h.height]

theorem Housed.carries_cell (h : Housed b f) (hc : Carries contents b f) (hname : name ∈ b.schema)
    (hi : i < f.height) :
    contents ⟨some b.sheet, b.schema.idxOf name, i + 2⟩ = f.cell name i := by
  have hcell := hc name hname i hi
  rwa [h.rooted.2.1, h.rooted.2.2, Nat.zero_add, Nat.zero_add, Nat.add_comm] at hcell

theorem valuesIn_columnAt (hb : b.part = none) (j : Nat) :
    (b.columnAt j).valuesIn contents = some ((b.cellsAt j).map contents) := by
  rw [Block.columnAt, Block.rowEnd_of_whole hb, Extent.succ_whole, Block.upTo, Term.valuesIn,
    Ref.columns, Option.getD_some, between_self, List.map_singleton, List.flatten_singleton]
  rfl

theorem valuesIn_rows (hb : b.part = none) (j : Nat) :
    (Term.call "ROW" [b.columnAt j]).valuesIn contents =
      some ((b.cellsAt j).map fun c ↦ .int c.number) := by
  rw [Block.columnAt, Block.rowEnd_of_whole hb, Extent.succ_whole, Block.upTo, Term.valuesIn,
    Option.getD_some, Block.cellsAt, stretch, List.map_map]
  rfl

theorem Housed.valuesIn_columnAt (h : Housed b f) (hc : Carries contents b f)
    (hname : name ∈ b.schema) (hr : r < f.height) :
    (b.columnAt (b.schema.idxOf name)).valuesIn contents =
      some ((List.range f.height).map (f.cell name)) := by
  rw [Layout.valuesIn_columnAt h.rooted.1, h.cellsAt hr, List.map_map]
  exact congrArg some
    (List.map_congr_left fun i hi ↦ h.carries_cell hc hname (List.mem_range.mp hi))

theorem Housed.valuesIn_rows (h : Housed b f) (hr : r < f.height) (j : Nat) :
    (Term.call "ROW" [b.columnAt j]).valuesIn contents =
      some ((List.range f.height).map fun i ↦ .int (i + 2 : Nat)) := by
  rw [Layout.valuesIn_rows h.rooted.1, h.cellsAt hr, List.map_map]
  rfl

variable {counter : Nat} {func output : String} {input : Option String}
  {partitionBy : List String} {orderBy : List SortKey} {frame : Datum} {P : Placement}

theorem Housed.carries_copy (h : Housed b f) (hc : Carries contents b f)
    (hP : window counter func input output partitionBy orderBy frame b = .ok P)
    (hs : Spreads contents P.edits) (hname : name ∈ b.schema) (hi : i < f.height) :
    contents ⟨some (sheetName .window counter), b.schema.idxOf name, i + 2⟩ = f.cell name i := by
  have hlt := List.idxOf_lt_length_of_mem hname
  have hput : put (sheetName .window counter) 1 (b.schema.idxOf name)
      (spread (b.columnAt (b.schema.idxOf name))) ∈ P.edits := by
    obtain ⟨rows, term, cells, -, -, -, hedits⟩ := edits_window hP
    rw [hedits]
    refine List.mem_append_left _ (List.mem_append_right _ (List.mem_map.mpr ?_))
    refine ⟨(name, b.schema.idxOf name), ?_, rfl⟩
    rw [List.mem_zipIdx_iff_getElem?, List.getElem?_eq_getElem hlt, List.getElem_idxOf]
  have hcopy := hs _ _ _ _ _ hput (Block.columns?_columnAt h.rooted.1 _) i
    ⟨some b.sheet, b.schema.idxOf name, i + 2⟩ (by rw [h.cellsAt hi]; simp [hi])
  rw [← h.carries_cell hc hname hi, ← hcopy, Nat.add_comm]

end Reading

section Passing

variable {E : Engine} {contents : Cell → Datum} {w : WindowFrame} {f : Frame} {r : Nat}

/-- Whether the cells of an input and of a window's own sheet hold the cells of a frame. -/
structure Shown (contents : Cell → Datum) (w : WindowFrame) (f : Frame) : Prop where
  housed : Housed w.block f
  carries : Carries contents w.block f
  copies : ∀ name ∈ w.block.schema, ∀ i < f.height,
    contents ⟨some w.sheet, w.block.schema.idxOf name, i + 2⟩ = f.cell name i

theorem Shown.valueIn_own (h : Shown contents w f) {name : String} (hname : name ∈ w.block.schema)
    (hr : r < f.height) :
    (w.own (w.block.schema.idxOf name) (r + 2)).valueIn contents = some (f.cell name r) := by
  have hcell := h.copies name hname r hr
  simp [WindowFrame.own, cell, Term.valueIn, Term.valuesIn, Ref.columns, stretch,
    h.housed.rooted.2.2, hcell]

theorem valueIn_row (w : WindowFrame) (j r : Nat) :
    (Term.call "ROW" [w.own j r]).valueIn contents = some (.int r) := by
  simp [WindowFrame.own, cell, Term.valueIn, Term.valuesIn]

def against (E : Engine) (f : Frame) (sign name : String) (r q : Nat) : Bool :=
  E.meets sign (f.cell name r) (f.cell name q)

def notBelow (E : Engine) (r q : Nat) : Bool :=
  E.meets "<=" (.int (r + 2 : Nat)) (.int (q + 2 : Nat))

theorem Shown.tests_equal (h : Shown contents w f) {name : String} (hname : name ∈ w.block.schema)
    (hr : r < f.height) :
    E.tests contents (w.block.columnAt (w.block.schema.idxOf name),
      w.own (w.block.schema.idxOf name) (r + 2)) =
        some ((List.range f.height).map (against E f "" name r)) := by
  have hcriterion : (w.own (w.block.schema.idxOf name) (r + 2)).criterionIn contents =
      some ("", f.cell name r) := by
    rw [WindowFrame.own, cell, Term.criterionIn]
    · exact congrArg (Option.map _) (h.valueIn_own hname hr)
    · simp
  rw [Engine.tests, h.housed.valuesIn_columnAt h.carries hname hr, hcriterion]
  simp [against]

theorem Shown.tests_sign (h : Shown contents w f) {name : String} (hname : name ∈ w.block.schema)
    (hr : r < f.height) (sign : String) :
    E.tests contents (w.block.columnAt (w.block.schema.idxOf name),
      .binary "&" (.quoted sign) (w.own (w.block.schema.idxOf name) (r + 2))) =
        some ((List.range f.height).map (against E f sign name r)) := by
  rw [Engine.tests, h.housed.valuesIn_columnAt h.carries hname hr, Term.criterionIn,
    h.valueIn_own hname hr]
  simp [against]

theorem Shown.tests_rows (h : Shown contents w f) (j : Nat) (hr : r < f.height) :
    E.tests contents (.call "ROW" [w.block.columnAt j],
      .binary "&" (.quoted "<=") (.call "ROW" [w.own j (r + 2)])) =
        some ((List.range f.height).map (notBelow E r)) := by
  rw [Engine.tests, h.housed.valuesIn_rows hr, Term.criterionIn, valueIn_row]
  simp [notBelow]

theorem Shown.tested_partition (h : Shown contents w f) (hin : w.partitionBy ⊆ w.block.schema)
    (hr : r < f.height) :
    E.Tested contents f.height (w.partitionPairs (r + 2))
      (w.partitionBy.map fun name ↦ against E f "" name r) := by
  rw [WindowFrame.partitionPairs, Engine.Tested, List.forall₂_map_left_iff,
    List.forall₂_map_right_iff, List.forall₂_same]
  exact fun name hname ↦ h.tests_equal (hin hname) hr

variable {k : SortKey}

theorem Shown.tested_order (h : Shown contents w f) (hk : w.orderBy = [k])
    (hin : k.column ∈ w.block.schema) (hr : r < f.height) (strict : Bool) :
    E.Tested contents f.height (w.orderPairs strict (r + 2))
      [against E f (WindowFrame.sign k strict) k.column r] := by
  rw [WindowFrame.orderPairs, hk]
  exact .cons (h.tests_sign hin hr _) .nil

theorem Shown.tested_ties (h : Shown contents w f) (hk : w.orderBy = [k])
    (hin : k.column ∈ w.block.schema) (hr : r < f.height) :
    E.Tested contents f.height (w.tiePairs (r + 2))
      [against E f "" k.column r, notBelow E r] := by
  rw [WindowFrame.tiePairs, hk]
  exact .cons (h.tests_equal hin hr) (.cons (h.tests_rows _ hr) .nil)

/-- Whether criteria compare the cells of a frame as they are ordered: in the partition columns
whether they are equal, and in the order column, as for row numbers, also which comes first. -/
structure Fair (E : Engine) (f : Frame) (partitionBy : List String) (order : String) : Prop where
  parts : ∀ name ∈ partitionBy, E.Equates (f.columnOf name).toList
  ties : E.Equates (f.columnOf order).toList
  orders : E.Orders (f.columnOf order).toList
  rows : E.Orders ((List.range f.height).map fun i ↦ .int (i + 2 : Nat))

variable {names : List String} {name : String} {q : Nat}

theorem mem_columnOf (hf : f.Filled names) (hname : name ∈ names) (hq : q < f.height) :
    f.cell name q ∈ (f.columnOf name).toList := by
  have hlt : q < (f.columnOf name).toList.length := by
    rwa [Frame.length_toList, hf.length_columnOf hname]
  rw [Frame.cell, Frame.cellAt, List.getElem?_eq_getElem hlt]
  exact List.getElem_mem hlt

theorem against_equal (hf : f.Filled names) (hE : E.Equates (f.columnOf name).toList)
    (hname : name ∈ names) (hr : r < f.height) (hq : q < f.height) :
    against E f "" name r q = (f.cell name r).same (f.cell name q) := by
  rw [against, hE _ (mem_columnOf hf hname hr) _ (mem_columnOf hf hname hq), Bool.eq_iff_iff,
    Datum.same_iff (hf.scalar_cell hname hq) (hf.scalar_cell hname hr),
    Datum.same_iff (hf.scalar_cell hname hr) (hf.scalar_cell hname hq), eq_comm]

theorem against_partition (hf : f.Filled names) {partitionBy : List String}
    (hE : ∀ name ∈ partitionBy, E.Equates (f.columnOf name).toList) (hin : partitionBy ⊆ names)
    (hr : r < f.height) (hq : q < f.height) :
    ((partitionBy.map fun name ↦ against E f "" name r).all (· q)) = f.peers partitionBy r q := by
  rw [Frame.peers, List.all_map, Bool.eq_iff_iff, List.all_eq_true, List.all_eq_true]
  exact forall₂_congr fun name hname ↦
    (against_equal hf (hE name hname) (hin hname) hr hq).congr_left

theorem against_ties (hf : f.Filled names) (hE : E.Equates (f.columnOf name).toList)
    (hname : name ∈ names) (d : Direction) (hr : r < f.height) (hq : q < f.height) :
    against E f "" name r q = (f.ranking d name).ties q r := by
  rw [against_equal hf hE hname hr hq, Bool.eq_iff_iff,
    Datum.same_iff (hf.scalar_cell hname hr) (hf.scalar_cell hname hq), Ranking.ties_iff]
  cases d with
  | asc => rw [Frame.ranking_asc, Frame.ranking_asc, and_comm, ← le_antisymm_iff]
  | desc => rw [Frame.ranking_desc, Frame.ranking_desc, ← le_antisymm_iff]

theorem against_sign (hf : f.Filled names) (hE : E.Orders (f.columnOf name).toList)
    (hname : name ∈ names) (d : Direction) (strict : Bool) (hr : r < f.height)
    (hq : q < f.height) :
    against E f (WindowFrame.sign ⟨name, d⟩ strict) name r q =
      if strict then !(f.ranking d name).le r q else (f.ranking d name).le q r := by
  have hv := mem_columnOf hf hname hr
  have hc := mem_columnOf hf hname hq
  have hlt := Datum.cellOrder_eq_lt (hf.scalar_cell hname hq) (hf.scalar_cell hname hr)
  have hgt := Datum.cellOrder_eq_gt (hf.scalar_cell hname hq) (hf.scalar_cell hname hr)
  have hsign : ∀ s, WindowFrame.sign ⟨name, d⟩ strict = s →
      against E f (WindowFrame.sign ⟨name, d⟩ strict) name r q =
        E.meets s (f.cell name r) (f.cell name q) := fun s hs ↦ by rw [hs, against]
  rw [Bool.eq_iff_iff]
  cases d <;> cases strict
  · rw [hsign "<=" rfl, hE.le _ hv _ hc, if_neg (by decide), Frame.ranking_asc, bne_iff_ne, Ne, hgt,
      not_lt]
  · rw [hsign "<" rfl, hE.lt _ hv _ hc, if_pos rfl, beq_iff_eq, hlt, Bool.not_eq_true',
      ← Bool.not_eq_true, Frame.ranking_asc, not_le]
  · rw [hsign ">=" rfl, hE.ge _ hv _ hc, if_neg (by decide), Frame.ranking_desc, bne_iff_ne, Ne,
      hlt, not_lt]
  · rw [hsign ">" rfl, hE.gt _ hv _ hc, if_pos rfl, beq_iff_eq, hgt, Bool.not_eq_true',
      ← Bool.not_eq_true, Frame.ranking_desc, not_le]

theorem notBelow_eq {n : Nat} (hE : E.Orders ((List.range n).map fun i ↦ .int (i + 2 : Nat)))
    (hr : r < n) (hq : q < n) : notBelow E r q = decide (q ≤ r) := by
  have hmem : ∀ i < n, Datum.int (i + 2 : Nat) ∈
      (List.range n).map fun i ↦ Datum.int (i + 2 : Nat) := fun i hi ↦
    List.mem_map.mpr ⟨i, List.mem_range.mpr hi, rfl⟩
  rw [notBelow, hE.le _ (hmem r hr) _ (hmem q hq), Bool.eq_iff_iff, bne_iff_ne, decide_eq_true_iff]
  have hcompare : (Datum.int (q + 2 : Nat)).cellOrder (.int (r + 2 : Nat)) =
      compare ((q + 2 : Nat) : Int) (r + 2 : Nat) := rfl
  rw [hcompare, Ne, compare_gt_iff_gt, not_lt]
  omega

variable {order : String} {d : Direction}

theorem Shown.all_passes (h : Shown contents w f) (hE : Fair E f w.partitionBy order)
    (hin : w.partitionBy ⊆ w.block.schema) (hr : r < f.height) (hq : q < f.height)
    (passes : List (Nat → Bool)) :
    (((w.partitionBy.map fun name ↦ against E f "" name r) ++ passes).all (· q)) =
      (f.peers w.partitionBy r q && passes.all (· q)) := by
  rw [List.all_append, against_partition h.housed.filled hE.parts hin hr hq]

variable (h : Shown contents w f) (hE : Fair E f w.partitionBy order)
  (hin : w.partitionBy ⊆ w.block.schema) (hk : w.orderBy = [⟨order, d⟩])
  (ho : order ∈ w.block.schema) (hr : r < f.height)

include h hE hin hk ho hr

theorem Shown.value_order (strict : Bool) :
    E.value contents (.call "COUNTIFS"
      (pairArgs (w.partitionPairs (r + 2) ++ w.orderPairs strict (r + 2)))) =
        some (.int ((List.range f.height).countP fun q ↦ f.peers w.partitionBy r q &&
          if strict then !(f.ranking d order).le r q else (f.ranking d order).le q r)) := by
  have htested := (h.tested_partition (E := E) hin hr).append (h.tested_order hk ho hr strict)
  rw [htested.count (by simp)]
  refine congrArg (fun n : Nat ↦ some (Datum.int n)) (List.countP_congr fun q hq ↦ ?_)
  have hq := List.mem_range.mp hq
  rw [h.all_passes hE hin hr hq, List.all_cons, List.all_nil, Bool.and_true,
    against_sign h.housed.filled hE.orders ho d strict hr hq]

theorem Shown.value_ties :
    E.value contents (.call "COUNTIFS"
      (pairArgs (w.partitionPairs (r + 2) ++ w.tiePairs (r + 2)))) =
        some (.int ((List.range f.height).countP fun q ↦ f.peers w.partitionBy r q &&
          ((f.ranking d order).ties q r && decide (q ≤ r)))) := by
  have htested := (h.tested_partition (E := E) hin hr).append (h.tested_ties hk ho hr)
  rw [htested.count (by simp)]
  refine congrArg (fun n : Nat ↦ some (Datum.int n)) (List.countP_congr fun q hq ↦ ?_)
  have hq := List.mem_range.mp hq
  rw [h.all_passes hE hin hr hq, List.all_cons, List.all_cons, List.all_nil, Bool.and_true,
    against_ties h.housed.filled hE.ties ho d hr hq, notBelow_eq hE.rows hr hq]

theorem Shown.value_running {func input : String} (hfunc : func ∈ aggregators)
    (hi : input ∈ w.block.schema) :
    E.value contents (.call func (w.block.columnAt (w.block.schema.idxOf input) ::
      pairArgs (w.partitionPairs (r + 2) ++ w.orderPairs false (r + 2)))) =
        some (E.aggregate func (((List.range f.height).filter fun q ↦
          f.peers w.partitionBy r q && (f.ranking d order).le q r).map (f.cell input))) := by
  have htested := (h.tested_partition (E := E) hin hr).append (h.tested_order hk ho hr false)
  rw [htested.aggregate (by simp) hfunc (h.housed.valuesIn_columnAt h.carries hi hr)]
  refine congrArg (fun rows ↦ some (E.aggregate func (rows.map (f.cell input))))
    (List.filter_congr fun q hq ↦ ?_)
  have hq := List.mem_range.mp hq
  rw [h.all_passes hE hin hr hq, List.all_cons, List.all_nil, Bool.and_true,
    against_sign h.housed.filled hE.orders ho d false hr hq, if_neg Bool.false_ne_true]

end Passing

end Gridplan.Layout
