import Gridplan.Proofs.Layout.Placements
import Gridplan.Proofs.Plan.Acceptance
import Gridplan.Proofs.Plan.Nodes

namespace Gridplan

def Operator.columns : Operator → List (List String) → List String
  | .source _ schema _, _ => schema.getD []
  | .select names _, _ => names
  | .filter _, [s] | .sort _ _ _, [s] | .limit _ _, [s] => s
  | .join _ rightOn _ _, [l, r] => l ++ r.filter fun n ↦ !rightOn.contains n
  | .groupBy keys aggs _ _, _ => keys ++ aggs.map (·.output)
  | .aggregate aggs, _ => aggs.map (·.output)
  | .withColumn name _, [s] => Layout.withName s name
  | .union, [l, _] => l
  | .melt idVars _ varName valueName, _ => idVars ++ [varName, valueName]
  | .window _ _ output _ _ _, [s] => s ++ [output]
  | _, _ => []

/-- Whether the operator leaves no rows over inputs that may have none. -/
def Operator.isVacant (sources : Layout.Sources) : Operator → List Bool → Bool
  | .source id _ _, _ => Layout.rowCount ((sources.lookup id).getD (.list [])) == 0
  | .filter _, [v] => v
  | _, _ => false

/-- Whether a node with the operator has one sheet, with formulas. -/
def Operator.isSole : Operator → Bool
  | .source .. | .join .. | .pivot .. | .bare | .loose .. => false
  | _ => true

/-- Whether the operator may record its rows where they end. -/
def Operator.isExact : Operator → Bool
  | .source .. | .filter .. | .sort .. => true
  | _ => false

namespace Plan

mutual

def columns : Plan → List String
  | .node _ op is => op.columns (columnsList is)

def columnsList : List Plan → List (List String)
  | [] => []
  | p :: ps => columns p :: columnsList ps

end

theorem columns_node (m : Option Nat) (op : Operator) (is : List Plan) :
    columns (.node m op is) = op.columns (is.map columns) := by
  rw [columns, eq_map_of_cons (g := columnsList) rfl fun _ _ ↦ rfl]

mutual

/-- Whether a plan is laid out without rows. -/
def isVacant (sources : Layout.Sources) : Plan → Bool
  | .node _ op is => op.isVacant sources (isVacantList sources is)

def isVacantList (sources : Layout.Sources) : List Plan → List Bool
  | [] => []
  | p :: ps => isVacant sources p :: isVacantList sources ps

end

theorem isVacant_node (sources : Layout.Sources) (m : Option Nat) (op : Operator)
    (is : List Plan) :
    isVacant sources (.node m op is) = op.isVacant sources (is.map (isVacant sources)) := by
  rw [isVacant, eq_map_of_cons (g := isVacantList sources) rfl fun _ _ ↦ rfl]

end Plan

end Gridplan

namespace Gridplan.Layout

open Formula
open Block (every_column)
open Outcome (Ensures bind_eq_ok)

variable {counter rows cols : Nat} {sheet : String} {names known : List String}
  {good : Ref → Prop} {b : Block}

variable {blocks : List Block} {keys : List String} {Q : Block → Prop} {t : Term} {op : Operator}

theorem ensures_true {α : Type} (x : Outcome α) : Ensures x fun _ ↦ True := fun _ _ ↦ trivial

theorem inner_cell {col number : Nat} (hcol : col < cols) (hpos : 1 ≤ number)
    (hnumber : number ≤ rows) :
    Inner sheet rows cols { sheet := some sheet, first := { col, number } } :=
  ⟨rfl, by simpa [Ref.corners] using ⟨hcol, hpos, hnumber⟩⟩

theorem every_keyColumns (keys : List String) :
    Ensures (keyColumns b keys) (Term.Every (Cites b)) := by
  have hcols : b.Columns (Cites b) := columns_of_cites fun _ ↦ id
  unfold keyColumns
  split
  · exact every_column hcols _
  · refine Ensures.bind (P := fun places ↦ ∀ i ∈ places, i < b.schema.length)
      (.mapM fun n _ ↦ position_lt _ n) fun places hplaces ↦ ?_
    split
    · split
      · next low high hlow hhigh =>
        have hl := hplaces low (List.min?_mem hlow)
        have hh := hplaces high (List.max?_mem hhigh)
        exact .ok fun r hr ↦ .inr (.inr ⟨low, hl, high, hh, hr⟩)
      · exact .error _
    · refine .ok (Term.every_beside.mpr (List.forall_mem_map.mpr fun i hi ↦ ?_))
      exact hcols i (hplaces i hi)

theorem every_keyCriteria (hb : b.Columns good) {number : Nat}
    (hown : ∀ j < keys.length, (cell sheet j number).Every good) :
    Ensures (keyCriteria b sheet keys number) fun ts ↦ ∀ t ∈ ts, t.Every good := by
  unfold keyCriteria
  refine Ensures.bind (P := fun tss ↦ ∀ ts ∈ tss, ∀ t ∈ ts, t.Every good) ?_
    fun pairs hpairs ↦ .ok (every_flatten hpairs)
  refine .mapM fun x hx ↦ (every_column hb _).bind fun t ht ↦ .ok ?_
  exact List.forall_mem_cons.mpr
    ⟨ht, List.forall_mem_singleton.mpr (hown _ (lt_of_mem_zipIdx hx))⟩

theorem every_valueArgs (hb : b.Columns good) (a : Aggregation) :
    Ensures (valueArgs b a) fun ts ↦ ∀ t ∈ ts, t.Every good := by
  unfold valueArgs
  split
  · exact .ok (by simp)
  · exact (every_column hb _).bind fun t ht ↦ .ok (by simpa using ht)

theorem groupColumn_drawn {col : Nat} (hkeys : keys.length ≤ cols) (hcol : col < cols)
    (a : Aggregation) :
    Ensures (groupColumn b sheet keys col a) fun es ↦
      ∀ e ∈ es, Drawn (Cites b) sheet groupRows cols e := by
  have hcols : b.Columns fun r ↦ Cites b r ∨ Inner sheet groupRows cols r :=
    columns_of_cites fun _ ↦ .inl
  unfold groupColumn
  refine (ensures_true _).bind fun func _ ↦ (every_valueArgs hcols a).bind fun value hvalue ↦ ?_
  refine .mapM fun i hi ↦ ?_
  -- the row of the sheet that a formula is in and refers to
  have hrow : i + 2 ≤ groupRows := by
    have := List.mem_range.mp hi
    omega
  have hown : ∀ j < cols, (cell sheet j (i + 2)).Every fun r ↦
      Cites b r ∨ Inner sheet groupRows cols r :=
    fun j hj ↦ every_cell.mpr (.inr (inner_cell hj (by omega) hrow))
  refine (every_keyCriteria hcols fun j hj ↦ hown j (hj.trans_le hkeys)).bind fun cs hcs ↦ .ok ?_
  refine drawn_put (.inr (by omega)) hcol ?_
  have hargs : ∀ t ∈ value ++ cs, t.Every fun r ↦ Cites b r ∨ Inner sheet groupRows cols r :=
    List.forall_mem_append.mpr ⟨hvalue, hcs⟩
  simp only [Term.every_call, List.forall_mem_cons, Term.every_binary, every_blank, and_true,
    true_and]
  exact ⟨hown 0 (by omega), hargs, by simp⟩

theorem groupBy_drawn (keys : List String) (aggs : List Aggregation) :
    Ensures (groupBy counter keys aggs b) (Ends [] (Cites b) (sheetName .groupBy counter) groupRows
      groupRows (keys ++ aggs.map (·.output))) := by
  have hlen : (keys ++ aggs.map (·.output)).length = keys.length + aggs.length := by simp
  unfold groupBy
  refine (every_keyColumns keys).bind fun t ht ↦ ?_
  refine Ensures.bind (P := fun ess ↦ ∀ es ∈ ess, ∀ e ∈ es, Drawn (Cites b)
    (sheetName .groupBy counter) groupRows (keys ++ aggs.map (·.output)).length e) ?_
    fun columns hcolumns ↦ ?_
  · refine .mapM fun x hx ↦ ?_
    have := lt_of_mem_zipIdx hx
    exact groupColumn_drawn (by omega) (by omega) _
  · refine place_sole fun hpos ↦ List.forall_mem_cons.mpr ⟨?_, fun e he ↦ ?_⟩
    · exact drawn_put (.inl rfl) hpos (by simpa using ht.mono fun _ ↦ .inl)
    · obtain ⟨es, hes, he⟩ := List.mem_flatten.mp he
      exact hcolumns es hes e he

theorem aggregate_drawn (aggs : List Aggregation) :
    Ensures (aggregate counter aggs b)
      (Ends [] (Cites b) (sheetName .aggregate counter) 2 2 (aggs.map (·.output))) := by
  unfold aggregate
  refine Ensures.bind (P := fun es ↦ ∀ e ∈ es, Drawn (Cites b) (sheetName .aggregate counter) 2
    (aggs.map (·.output)).length e) ?_ fun totals htotals ↦ place_sole fun _ ↦ htotals
  refine .mapM fun x hx ↦ (ensures_true _).bind fun func _ ↦ ?_
  refine (every_column (columns_of_cites fun _ ↦ id) _).bind fun t ht ↦ .ok ?_
  have := lt_of_mem_zipIdx hx
  exact drawn_put (.inl rfl) (by simpa using this) (by simpa using ht.mono fun _ ↦ .inl)

theorem every_cellTerm {p : PivotRefs} {row col : Term} (hp : p.index.Every good ∧
    p.columns.Every good ∧ p.values.Every good) (hrow : row.Every good)
    (hcol : col.Every good) (func : String) :
    Ensures (p.cellTerm func row col) (Term.Every good) := by
  unfold PivotRefs.cellTerm
  split
  case h_7 => exact .error _
  all_goals
    refine .ok ?_
    simp [PivotRefs.matching, PivotRefs.criteria, hp, hrow, hcol]

theorem fromOrigin_ensures (rowEnd colEnd : Int) :
    Ensures (Range.fromOrigin rowEnd colEnd) fun r ↦
      r.row = 0 ∧ r.col = 0 ∧ r.rowEnd = rowEnd.toNat ∧ r.colEnd = colEnd.toNat := by
  unfold Range.fromOrigin Range.ofCorners
  split
  · exact .error _
  · split
    · exact .error _
    · exact .ok ⟨rfl, rfl, rfl, rfl⟩

/-- Whether a reference is to the column values of a pivot, or to one cell beside them. -/
def Strip (helper : String) (cols : Nat) (r : Ref) : Prop :=
  r.sheet = some helper ∧ ∀ c ∈ r.corners, c.col ≤ cols ∧ c.number = 1

/-- The sheet with the column values of a pivot, and the sheet with its cells. The row of column
values on the second one is read one cell too far. -/
theorem pivot_drawn (index : List String) (columns values : String) (aggfunc : Option String)
    (colCount rowCount : Option Nat) :
    Ensures (pivot counter index columns values aggfunc colCount rowCount b) fun P ↦
      ∃ name t body, ∃ rows cols : Nat, P.edits =
        [Part.mk (sheetName .pivot counter ++ "_distinct") (.int 1) cols
            [put (sheetName .pivot counter ++ "_distinct") 0 0 t],
          Part.mk (sheetName .pivot counter) (.int (rows + 1)) (cols + 1)
            (header (sheetName .pivot counter) [name] :: body)].flatMap Part.edits ∧
        t.Every (Cites b) ∧
        (∀ e ∈ body, Drawn
          (fun r ↦ Cites b r ∨ Strip (sheetName .pivot counter ++ "_distinct") cols r)
          (sheetName .pivot counter) (rows + 1) (cols + 2) e) ∧
        P.block.sheet = sheetName .pivot counter ∧ P.block.schema = [] ∧ Rooted P.block ∧
        P.block.range.rowEnd = rows + 1 ∧ P.block.range.colEnd = cols := by
  have hb : b.Columns (Cites b) := columns_of_cites fun _ ↦ id
  unfold pivot
  dsimp only
  generalize sheetName .pivot counter = sheet
  generalize sheet ++ "_distinct" = helper
  generalize colCount.getD pivotCols = cols
  generalize rowCount.getD pivotRows = rows
  split
  · exact .error _
  · exact .error _
  next name =>
  refine (every_column hb name).bind fun i hi ↦ ?_
  refine (every_column hb columns).bind fun c hc ↦ ?_
  refine (every_column hb values).bind fun v hv ↦ ?_
  refine (ensures_true _).bind fun _ _ ↦ ?_
  let good := fun r ↦ (Cites b r ∨ Strip helper cols r) ∨ Inner sheet (rows + 1) (cols + 2) r
  have hgood : ∀ r, Cites b r → good r := fun _ hr ↦ .inl (.inl hr)
  refine Ensures.bind (P := fun ess ↦ ∀ es ∈ ess, ∀ e ∈ es,
    Drawn (fun r ↦ Cites b r ∨ Strip helper cols r) sheet (rows + 1) (cols + 2) e) ?_
    fun cells hcells ↦ ?_
  · refine .mapM fun k hk ↦ .mapM fun j hj ↦ ?_
    have hk := List.mem_range.mp hk
    have hj := List.mem_range.mp hj
    have hindex : (indexCell (k + 2)).Every good := by
      refine Term.every_ref.mpr (.inr ⟨rfl, ?_⟩)
      simpa [Ref.corners] using hk
    have hheader : (headerCell helper j).Every good := by
      refine Term.every_ref.mpr (.inl (.inr ⟨rfl, ?_⟩))
      simpa [Ref.corners] using hj.le
    refine (every_cellTerm ⟨hi.mono hgood, hc.mono hgood, hv.mono hgood⟩ hindex hheader _).bind
      fun t ht ↦ .ok (drawn_put (.inr (by omega)) (by omega) ?_)
    simpa using ht
  refine (fromOrigin_ensures _ _).bind fun range ⟨hrow, hcol, hrowEnd, hcolEnd⟩ ↦ .ok ?_
  let distinct := Term.call "TRANSPOSE" [.call "SORT" [.call "UNIQUE" [c], .int 1, .text "TRUE"]]
  refine ⟨name, distinct, put sheet 0 1 (headerRow helper cols) ::
    put sheet 1 0 (.call "UNIQUE" [i]) :: cells.flatten, rows, cols, by simp [Part.edits, distinct],
    ?_, ?_, rfl, rfl, ⟨rfl, hrow, hcol⟩, hrowEnd, hcolEnd⟩
  · simpa [distinct] using hc
  · refine List.forall_mem_cons.mpr ⟨?_, List.forall_mem_cons.mpr ⟨?_, fun e he ↦ ?_⟩⟩
    · refine drawn_put (.inr (by omega)) (by omega) (Term.every_ref.mpr (.inl (.inr ⟨rfl, ?_⟩)))
      simp [Ref.corners]
    · exact drawn_put (.inl rfl) (by omega) (by simpa using hi.mono hgood)
    · obtain ⟨es, hes, he⟩ := List.mem_flatten.mp he
      exact hcells es hes e he

theorem pivot_placed (hin : b.sheet ∈ known) (index : List String) (columns values : String)
    (aggfunc : Option String) (colCount rowCount : Option Nat) :
    Ensures (pivot counter index columns values aggfunc colCount rowCount b) fun P ↦
      ∃ last parts, Placed .pivot counter known [] last P parts ∧ (last == 0) = false := by
  refine (pivot_drawn index columns values aggfunc colCount rowCount).mono
    fun P ⟨name, t, body, rows, cols, hedits, ht, hbody, hsheet, hschema, hrooted, hlast, _⟩ ↦ ?_
  refine ⟨rows + 1, _, ⟨hedits, ⟨?_, ?_, trivial⟩, ?_, ?_, ?_, hrooted, hschema, hlast,
    fun h ↦ absurd rfl h⟩, rfl⟩
  · refine List.forall_mem_singleton.mpr (fills_put.mpr fun r hr s hs ↦ ?_)
    exact List.mem_cons_of_mem _ (sheet_of_cites hin r (ht r hr) s hs)
  · refine List.forall_mem_cons.mpr ⟨rfl, fun e he ↦ ((hbody e he).rests ?_ (by simp)).1⟩
    rintro r (hr | hr) s hs
    · simp [sheet_of_cites hin r hr s hs]
    · obtain rfl := Option.some.inj (hr.1.symm.trans hs)
      simp
  · simp
  · have hhelper : Belongs .pivot counter (sheetName .pivot counter ++ "_distinct") :=
      ⟨"_distinct", by simp [endings], rfl⟩
    simpa using ⟨hhelper, belongs_self .pivot counter⟩
  · simp [hsheet]

@[simp] theorem every_counting {k : Nat} : (counting t k).Every good ↔ t.Every good := by
  simp [counting]

@[simp] theorem every_repeatEach {k : Nat} : (repeatEach t k).Every good ↔ t.Every good := by
  simp [repeatEach]

@[simp] theorem every_cycle {ts : List Term} :
    (cycle t ts).Every good ↔ t.Every good ∧ ∀ u ∈ ts, u.Every good := by
  simp [cycle]

theorem melt_drawn (hb : Rooted b) (idVars : List String) (valueVars : Option (List String))
    (varName valueName : String) :
    Ensures (melt counter idVars valueVars varName valueName b) (Ends [] (Cites b)
      (sheetName .melt counter) (b.range.rowEnd * (melted b.schema idVars valueVars).length + 1)
      (b.range.rowEnd * (melted b.schema idVars valueVars).length + 1)
      (idVars ++ [varName, valueName])) := by
  have hcols : b.Columns (Cites b) := columns_of_cites fun _ ↦ id
  have hlen : (idVars ++ [varName, valueName]).length = idVars.length + 2 := by simp
  unfold melt
  dsimp only
  generalize melted b.schema idVars valueVars = vars
  split
  · rw [Outcome.error_bind]
    exact .error _
  rw [hb.depth_eq, Extent.times, Extent.succ_whole]
  generalize b.range.rowEnd * vars.length + 1 = rows
  split
  · exact .error _
  next first rest =>
  refine (every_column hcols first).bind fun f hf ↦ ?_
  refine Ensures.bind (P := fun es ↦ ∀ e ∈ es, Drawn (Cites b) (sheetName .melt counter) rows
    (first :: rest ++ [varName, valueName]).length e) ?_ fun ids hids ↦ ?_
  · refine .mapM fun x hx ↦ (every_column hcols _).bind fun t ht ↦ .ok ?_
    have := lt_of_mem_zipIdx hx
    exact drawn_put (.inl rfl) (by omega) (by simpa using ht.mono fun _ ↦ .inl)
  refine Ensures.bind (P := fun ts ↦ ∀ t ∈ ts, t.Every (Cites b)) ?_ fun refs hrefs ↦ ?_
  · exact .mapM fun n _ ↦ every_column hcols n
  rw [List.append_assoc]
  have hvars : (cycle f (vars.map .quoted)).Every (Cites b) := by simp [hf]
  have hvalues : (cycle f refs).Every (Cites b) := by simpa [hf] using hrefs
  refine place_sole fun _ ↦ List.forall_mem_append.mpr ⟨hids, List.forall_mem_cons.mpr ⟨?_,
    List.forall_mem_singleton.mpr ?_⟩⟩
  · exact drawn_put (.inl rfl) (by omega) (hvars.mono fun _ ↦ .inl)
  · exact drawn_put (.inl rfl) (by omega) (hvalues.mono fun _ ↦ .inl)

section Window

variable {w : WindowFrame} {number : Nat}

def WindowFrame.Owns (good : Ref → Prop) (w : WindowFrame) (number : Nat) : Prop :=
  ∀ i ≤ w.block.schema.length, (cell w.sheet i number).Every good

theorem every_groups {α : Type} {xs : List α} {name : α → String} {terms : α → Nat → List Term}
    (h : ∀ x, ∀ i < b.schema.length, ∀ t ∈ terms x i, t.Every good) :
    Ensures (do
      let groups ← xs.mapM fun x ↦ do
        let i ← position b.schema (name x)
        return terms x i
      return groups.flatten) fun ts ↦ ∀ t ∈ ts, t.Every good := by
  refine Ensures.bind (P := fun tss ↦ ∀ ts ∈ tss, ∀ t ∈ ts, t.Every good) ?_
    fun groups hgroups ↦ .ok (every_flatten hgroups)
  exact .mapM fun x _ ↦ (position_lt _ _).bind fun i hi ↦ .ok (h x i hi)

section Row

variable (hb : Rooted w.block) (hc : w.block.Columns good) (hs : w.Owns good number)

include hb hs in
theorem every_own {i : Nat} (hi : i < w.block.schema.length) : (w.own i number).Every good := by
  rw [WindowFrame.own, hb.2.2, Nat.zero_add]
  exact hs i hi.le

include hb hc hs

theorem every_partitionArgs : Ensures (w.partitionArgs number) fun ts ↦ ∀ t ∈ ts, t.Every good :=
  every_groups fun n i hi ↦ by simpa using ⟨hc i hi, every_own hb hs hi⟩

theorem every_orderArgs (strict : Bool) :
    Ensures (w.orderArgs strict number) fun ts ↦ ∀ t ∈ ts, t.Every good :=
  every_groups fun k i hi ↦ by simpa using ⟨hc i hi, every_own hb hs hi⟩

theorem every_tieArgs : Ensures (w.tieArgs number) fun ts ↦ ∀ t ∈ ts, t.Every good :=
  every_groups fun k i hi ↦ by simp [hc i hi, every_own hb hs hi]

theorem every_rank (numbered : Bool) : Ensures (w.rank numbered number) (Term.Every good) := by
  unfold WindowFrame.rank
  refine (every_partitionArgs hb hc hs).bind fun ps hps ↦ ?_
  refine (every_orderArgs hb hc hs numbered).bind fun os hos ↦ ?_
  have hbefore : ∀ t ∈ ps ++ os, t.Every good := List.forall_mem_append.mpr ⟨hps, hos⟩
  split
  · refine (every_tieArgs hb hc hs).bind fun ts hts ↦ .ok ?_
    have hties : ∀ t ∈ ps ++ ts, t.Every good := List.forall_mem_append.mpr ⟨hps, hts⟩
    exact Term.every_binary.mpr ⟨Term.every_call.mpr hbefore, Term.every_call.mpr hties⟩
  · exact .ok (Term.every_call.mpr hbefore)

theorem every_running (func : String) {column : Term} (hcolumn : column.Every good) :
    Ensures (w.running func column number) (Term.Every good) := by
  unfold WindowFrame.running
  refine (every_partitionArgs hb hc hs).bind fun ps hps ↦ ?_
  refine (every_orderArgs hb hc hs false).bind fun os hos ↦ .ok ?_
  refine Term.every_call.mpr (List.forall_mem_cons.mpr ⟨hcolumn, ?_⟩)
  split
  · simp
  · exact List.forall_mem_append.mpr ⟨hps, hos⟩

end Row

theorem every_shifted (func : String) (input : Option String) (frame : Datum) :
    Ensures (shifted w func input frame) fun f ↦
      ∀ number, w.Owns good number → Ensures (f number) (Term.Every good) := by
  unfold shifted
  dsimp only
  split
  · rw [Outcome.error_bind]
    exact .error _
  refine (ensures_true _).bind fun _ _ ↦ (ensures_true _).bind fun _ _ ↦ ?_
  refine (position_lt _ _).bind fun i hi ↦ .ok fun number hs ↦ .ok ?_
  simpa using hs (i + 1) hi

theorem every_accumulated (hb : Rooted w.block) (hc : w.block.Columns good) (func : String)
    (input : Option String) (frame : Datum) :
    Ensures (accumulated w func input frame) fun f ↦
      ∀ number, w.Owns good number → Ensures (f number) (Term.Every good) := by
  unfold accumulated
  split
  · exact .error _
  dsimp only
  split
  · rw [Outcome.error_bind]
    exact .error _
  refine (ensures_true _).bind fun n _ ↦ (every_column hc n).bind fun t ht ↦ .ok ?_
  exact fun number hs ↦ every_running hb hc hs _ ht

theorem every_windowTerm (hb : Rooted w.block) (hc : w.block.Columns good) (func : String)
    (input : Option String) (frame : Datum) :
    Ensures (windowTerm w func input frame) fun f ↦
      ∀ number, w.Owns good number → Ensures (f number) (Term.Every good) := by
  unfold windowTerm
  split
  · exact .ok fun number hs ↦ every_rank hb hc hs false
  · exact .ok fun number hs ↦ every_rank hb hc hs true
  · exact every_shifted _ input frame
  · exact every_shifted _ input frame
  · exact every_accumulated hb hc func input frame

theorem window_drawn (hb : Rooted b) (func : String) (input : Option String) (output : String)
    (partitionBy : List String) (orderBy : List SortKey) (frame : Datum) :
    Ensures (window counter func input output partitionBy orderBy frame b)
      (Ends [] (Cites b) (sheetName .window counter) (b.range.rowEnd + 1) (b.range.rowEnd + 1)
        (b.schema ++ [output])) := by
  let sheet := sheetName .window counter
  let cols := (b.schema ++ [output]).length
  have hlen : cols = b.schema.length + 1 := by simp [cols]
  let drawn := Drawn (Cites b) sheet (b.range.rowEnd + 1) cols
  have hc : b.Columns fun r ↦ Cites b r ∨ Inner sheet (b.range.rowEnd + 1) cols r :=
    columns_of_cites fun _ ↦ .inl
  unfold window
  refine Ensures.bind (P := fun es ↦ ∀ e ∈ es, drawn e) ?_ fun copies hcopies ↦ ?_
  · refine .mapM fun x hx ↦ (every_column hc _).bind fun t ht ↦ .ok ?_
    have := lt_of_mem_zipIdx hx
    exact drawn_put (.inl rfl) (by omega) (by simpa using ht)
  refine (every_windowTerm (w := ⟨b, sheet, partitionBy, orderBy⟩) hb hc func input frame).bind
    fun term hterm ↦ ?_
  rw [hb.depth_eq]
  refine Ensures.bind (P := fun es ↦ ∀ e ∈ es, drawn e) ?_ fun cells hcells ↦ ?_
  · refine .mapM fun i hi ↦ ?_
    have hi := List.mem_range.mp hi
    refine (hterm (i + 2) fun j hj ↦ every_cell.mpr (.inr ?_)).bind fun t ht ↦ .ok ?_
    · exact inner_cell (hj.trans_lt (by simp [cols])) (by omega) (by omega)
    · exact drawn_put (.inr (by omega)) (by omega) ht
  dsimp only
  rw [Extent.succ_whole, List.append_assoc]
  exact place_sole fun _ ↦ List.forall_mem_append.mpr ⟨hcopies, hcells⟩

end Window

theorem only_ensures (kind : Kind) (h : ∀ b ∈ blocks, Q b) :
    Ensures (only kind blocks) fun b ↦ blocks = [b] ∧ Q b := by
  unfold only
  split
  · exact .ok ⟨rfl, h _ (by simp)⟩
  · exact .error _

theorem both_ensures (kind : Kind) (h : ∀ b ∈ blocks, Q b) :
    Ensures (both kind blocks) fun lr ↦ blocks = [lr.1, lr.2] ∧ Q lr.1 ∧ Q lr.2 := by
  unfold both
  split
  · exact .ok ⟨rfl, h _ (by simp), h _ (by simp)⟩
  · exact .error _

/-- What a node comes to over some blocks: the rows of a source, a join, a pivot, or else a single
sheet of formulas that refer to these blocks. -/
inductive Shaped (sources : Sources) (counter : Nat) (blocks : List Block) :
    Operator → Placement → Prop
  | source {id : String} {schema : Option (List String)} {frame : Option Frame} {P : Placement}
      (h : source counter schema ((sources.lookup id).getD (.list [])) = .ok P) :
      Shaped sources counter blocks (.source id schema frame) P
  | join {leftOn rightOn : List String} {kind : JoinKind} {suffixes : Option String × Option String}
      {l r : Block} {P : Placement} (hblocks : blocks = [l, r])
      (h : join counter kind ⟨l, r, leftOn, rightOn⟩ = .ok P) :
      Shaped sources counter blocks (.join leftOn rightOn kind suffixes) P
  | pivot {index : List String} {columns values : String} {aggfunc : Option String}
      {colCount rowCount : Option Nat} {b : Block} {P : Placement} (hblocks : blocks = [b])
      (h : pivot counter index columns values aggfunc colCount rowCount b = .ok P) :
      Shaped sources counter blocks (.pivot index columns values aggfunc) P
  | sole {op : Operator} {rows last : Nat} {P : Placement} (hop : op.isSole = true)
      (hrows : 1 ≤ rows) (hlast : last ≤ rows) (hfull : op.isExact = false → rows ≤ last)
      (hvacant : (last == 0) = op.isVacant sources (blocks.map (·.range.rowEnd == 0)))
      (hends : Ends [] (fun r ↦ ∃ b ∈ blocks, Cites b r) (sheetName op.kind counter) rows last
        (op.columns (blocks.map (·.schema))) P) : Shaped sources counter blocks op P

theorem Ends.mono {before : List Part} {good' : Ref → Prop} {last : Nat} {schema : List String}
    {P : Placement} (h : Ends before good sheet rows last schema P)
    (hgood : ∀ r, good r → good' r) :
    Ends before good' sheet rows last schema P := by
  obtain ⟨body, hedits, hbody⟩ := h.edits
  refine ⟨⟨body, hedits, fun e he ↦ ?_⟩, h.block⟩
  obtain ⟨row, col, t, rfl, hrow, hcol, ht⟩ := hbody e he
  exact drawn_put hrow hcol (ht.mono fun r hr ↦ hr.imp_left (hgood r))

theorem placeNode_shaped (sources : Sources) (ht : op.isTyped = true) (inputs : List Plan)
    (hblocks : ∀ b ∈ blocks, Rooted b) :
    Ensures (placeNode sources counter op inputs blocks) (Shaped sources counter blocks op) := by
  -- a node over one block is laid out on a sheet with this many rows
  have hone {kind : Kind} {f : Block → Outcome Placement} {rows last : Block → Nat}
      (hop : op.isSole = true)
      (h : ∀ b, Rooted b → Ensures (f b) (Ends [] (Cites b) (sheetName op.kind counter) (rows b)
        (last b) (op.columns [b.schema])))
      (hrows : ∀ b, 1 ≤ rows b ∧ last b ≤ rows b ∧ (op.isExact = false → rows b ≤ last b) ∧
        (last b == 0) = op.isVacant sources [b.range.rowEnd == 0]) :
      Ensures (only kind blocks >>= f) (Shaped sources counter blocks op) := by
    unfold only
    split
    · next b =>
      obtain ⟨hpos, hlast, hfull, hvacant⟩ := hrows b
      exact (h b (hblocks b (by simp))).mono fun P hP ↦
        .sole hop hpos hlast hfull hvacant (hP.mono fun r hr ↦ ⟨b, by simp, hr⟩)
    · exact .error _
  cases op with
  | source id schema data => exact fun P h ↦ .source h
  | select columns predicate =>
    exact hone rfl (fun b hb ↦ select_drawn hb _ _) fun b ↦ ⟨by omega, le_rfl, fun _ ↦ le_rfl, rfl⟩
  | filter predicate =>
    exact hone rfl (fun b hb ↦ filter_drawn hb _) fun b ↦
      ⟨by omega, by omega, by simp [Operator.isExact], rfl⟩
  | join leftOn rightOn kind suffixes =>
    intro P h
    obtain ⟨lr, hlr, h⟩ := bind_eq_ok.mp h
    exact .join (both_ensures .join hblocks lr hlr).1 h
  | groupBy keys aggs order cap =>
    exact hone rfl (fun b _ ↦ groupBy_drawn _ _) fun b ↦ ⟨by decide, le_rfl, fun _ ↦ le_rfl, rfl⟩
  | aggregate aggs =>
    exact hone rfl (fun b _ ↦ aggregate_drawn _) fun b ↦ ⟨by omega, le_rfl, fun _ ↦ le_rfl, rfl⟩
  | sort keys cap predicate =>
    refine hone rfl (fun b hb ↦ ?_) fun b ↦ ⟨sortedRows_pos (cap.map Int.toNat) b.range.rowEnd,
      sortedLast_le _ _, by simp [Operator.isExact],
      beq_false_of_ne (Nat.ne_of_gt (sortedLast_pos _ _))⟩
    have h := @sort_drawn counter b hb keys (cap.map Int.toNat) predicate
    rwa [Option.map_map] at h
  | limit count side =>
    exact hone rfl (fun b hb ↦ limit_drawn hb _ _) fun b ↦ ⟨by omega, le_rfl, fun _ ↦ le_rfl, rfl⟩
  | withColumn column expression =>
    exact hone rfl (fun b hb ↦ withColumn_drawn hb _ _) fun b ↦
      ⟨by omega, le_rfl, fun _ ↦ le_rfl, rfl⟩
  | union =>
    intro P h
    obtain ⟨lr, hlr, h⟩ := bind_eq_ok.mp h
    obtain ⟨rfl, hl, hr⟩ := both_ensures .union hblocks lr hlr
    have hends := union_drawn hl hr P h
    refine .sole rfl (by omega) le_rfl (fun _ ↦ le_rfl) rfl (hends.mono fun r hr ↦ ?_)
    simpa using hr
  | pivot index columns values aggfunc =>
    intro P h
    obtain ⟨b, hb, h⟩ := bind_eq_ok.mp h
    obtain ⟨cols, -, h⟩ := bind_eq_ok.mp h
    obtain ⟨rows, -, h⟩ := bind_eq_ok.mp h
    exact .pivot (only_ensures .pivot hblocks b hb).1 h
  | melt idVars valueVars varName valueName =>
    exact hone rfl (fun b hb ↦ melt_drawn hb _ _ _ _) fun b ↦
      ⟨by omega, le_rfl, fun _ ↦ le_rfl, rfl⟩
  | window func input output partitionBy orderBy frame =>
    exact hone rfl (fun b hb ↦ window_drawn hb _ _ _ _ _ _) fun b ↦
      ⟨by omega, le_rfl, fun _ ↦ le_rfl, rfl⟩
  | bare | loose => cases ht

theorem placeNode_placed (sources : Sources) (ht : op.isTyped = true) (inputs : List Plan)
    (hblocks : ∀ b ∈ blocks, Rooted b ∧ b.sheet ∈ known) :
    Ensures (placeNode sources counter op inputs blocks) fun P ↦
      ∃ last parts, Placed op.kind counter known (op.columns (blocks.map (·.schema))) last P parts ∧
        (last == 0) = op.isVacant sources (blocks.map (·.range.rowEnd == 0)) := by
  refine (placeNode_shaped sources ht inputs fun b hb ↦ (hblocks b hb).1).mono fun P hP ↦ ?_
  cases hP with
  | source h =>
    obtain ⟨parts, hparts⟩ := source_placed _ _ P h
    exact ⟨_, parts, hparts, rfl⟩
  | join hbs h =>
    subst hbs
    obtain ⟨hl, hr⟩ := by simpa using hblocks
    exact join_placed hl.1 hr.1 hl.2 hr.2 _ P h
  | pivot hbs h =>
    subst hbs
    exact pivot_placed (hblocks _ (by simp)).2 _ _ _ _ _ _ P h
  | sole _ hrows _ _ hvacant hends =>
    refine hends.placed_sole hrows (fun r hr ↦ ?_) hvacant
    obtain ⟨b, hb, hr⟩ := hr
    exact sheet_of_cites (hblocks b hb).2 r hr

end Gridplan.Layout
