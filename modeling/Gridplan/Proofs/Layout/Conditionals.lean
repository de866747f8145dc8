import Gridplan.Proofs.Layout.Headings
import Gridplan.Proofs.Layout.Neighbours
import Gridplan.Proofs.Layout.Record

namespace Gridplan.Layout

open Formula
open Outcome (Ensures bind_eq_ok)

variable {b : Block} {counter : Nat} {sources : Sources} {s : Progress} {p : Plan} {P : Placement}
  {optimized : Bool}

def isSoundEdit : Step → Bool
  | .formula _ _ _ t _ => t.isSound
  | _ => true

@[simp] theorem isSoundEdit_put (sheet : String) (row col : Nat) (t : Term) :
    isSoundEdit (put sheet row col t) = t.isSound := rfl

@[simp] theorem isSoundEdit_create (name : String) (rows : Number) (cols : Int) :
    isSoundEdit (.create name rows cols) = true := rfl

@[simp] theorem isSoundEdit_header (sheet : String) (schema : List String) :
    isSoundEdit (header sheet schema) = true := rfl

@[simp] theorem all_isSoundEdit_opening (sheet : String) (rows : Extent) (schema : List String) :
    (opening sheet rows schema).all isSoundEdit = true := rfl

theorem isRange_columnAt (h : b.part = none) (i : Nat) : (b.columnAt i).isRange = true := by
  rw [Block.columnAt, Block.rowEnd_of_whole h, Extent.succ_whole]
  rfl

theorem isSound_upTo (first : Corner) (col : Nat) (number : Extent) :
    (b.upTo first col number).isSound = true := by cases number <;> rfl

theorem isSound_columnAt (i : Nat) : (b.columnAt i).isSound = true := isSound_upTo ..

theorem isSound_column (name : String) : Ensures (b.column name) (·.isSound = true) :=
  (ensures_true _).bind fun i _ ↦ .ok (isSound_columnAt i)

section Groups

variable {keys : List String} {sheet : String} {number : Nat} {args : List Term}

def keyPairs (b : Block) (sheet : String) (keys : List String) (number : Nat) :
    List (Term × Term) :=
  keys.zipIdx.map fun x ↦ (b.columnAt (b.schema.idxOf x.1), cell sheet x.2 number)

theorem keyCriteria_ensures : Ensures (keyCriteria b sheet keys number) fun args ↦
    args = pairArgs (keyPairs b sheet keys number) := by
  have hstep : (fun x : String × Nat ↦ b.column x.1 >>= fun t ↦
      (.ok [t, cell sheet x.2 number] : Outcome (List Term))) =
      fun x ↦ position b.schema x.1 >>= fun i ↦ .ok [b.columnAt i, cell sheet x.2 number] := by
    funext x
    rw [Block.column]
    cases position b.schema x.1 <;> rfl
  intro args h
  have h' : ((keys.zipIdx.mapM fun x ↦ b.column x.1 >>= fun t ↦
      (.ok [t, cell sheet x.2 number] : Outcome (List Term))) >>= fun gs ↦ .ok gs.flatten) =
      .ok args := h
  rw [hstep] at h'
  rw [(flatten_mapM_eq_ok.mp h').2, pairArgs, keyPairs, List.flatMap_map]

theorem keyPairs_proper (h : b.part = none) : Proper (keyPairs b sheet keys number) :=
  List.forall_mem_map.mpr fun _ _ ↦ ⟨isRange_columnAt h _, rfl⟩

theorem keyColumns_sound : Ensures (keyColumns b keys) (·.isSound = true) := by
  unfold keyColumns
  split
  · exact isSound_column _
  · refine (ensures_true _).bind fun places _ ↦ ?_
    split
    · split
      · exact .ok (isSound_upTo ..)
      · exact .error _
    · exact .ok (by simp [isSound_columnAt])

theorem isSound_aggregation (hb : b.part = none) {a : Aggregation} {func : String}
    {values : List Term} {ps : List (Term × Term)} (hfunc : conditional a.func = .ok func)
    (hvalues : valueArgs b a = .ok values) (hps : Proper ps) (hne : ps ≠ []) :
    (Term.call func (values ++ pairArgs ps)).isSound = true := by
  unfold valueArgs at hvalues
  split at hvalues
  · next hcount =>
    obtain rfl := Except.ok.inj hvalues
    rw [hcount] at hfunc
    obtain rfl : "COUNTIFS" = func := Except.ok.inj hfunc
    exact (isSound_counting hps).mpr hne
  · next hcount =>
    obtain ⟨t, ht, h⟩ := bind_eq_ok.mp hvalues
    obtain rfl := Except.ok.inj h
    obtain ⟨i, -, h⟩ := bind_eq_ok.mp ht
    obtain rfl := Except.ok.inj h
    have haggregates : func ∈ aggregators := by
      unfold conditional at hfunc
      split at hfunc
      case h_3 heq => exact absurd heq hcount
      case h_6 => cases hfunc
      all_goals
        obtain rfl := Except.ok.inj hfunc
        decide
    exact (isSound_aggregating haggregates (isRange_columnAt hb i) hps).mpr hne

theorem groupColumn_sound (hb : b.part = none) (hkeys : keys ≠ []) (col : Nat) (a : Aggregation) :
    Ensures (groupColumn b sheet keys col a) (·.all isSoundEdit = true) := by
  intro es h
  obtain ⟨func, hfunc, h⟩ := bind_eq_ok.mp h
  obtain ⟨values, hvalues, h⟩ := bind_eq_ok.mp h
  have hall : ∀ e ∈ es, isSoundEdit e = true := by
    refine Ensures.mapM (fun i _ ↦ ?_) es h
    refine keyCriteria_ensures.bind fun args hargs ↦ .ok ?_
    have hne : keyPairs b sheet keys (i + 2) ≠ [] := by simpa [keyPairs] using hkeys
    have hsound := isSound_aggregation hb hfunc hvalues (keyPairs_proper hb) hne
    subst hargs
    rw [isSoundEdit_put, isSound_call]
    simp only [List.all_cons, List.all_nil, hsound]
    rfl
  exact List.all_eq_true.mpr hall

theorem groupBy_sound (hb : b.part = none) (aggs : List Aggregation) :
    Ensures (groupBy counter keys aggs b) (·.edits.all isSoundEdit = true) := by
  intro P h
  obtain ⟨single, hsingle, h⟩ := bind_eq_ok.mp h
  obtain ⟨columns, hcolumns, h⟩ := bind_eq_ok.mp h
  have hkeys := keyColumns_ensures keys single hsingle
  have hunique := keyColumns_sound single hsingle
  have hall : ∀ es ∈ columns, es.all isSoundEdit = true :=
    Ensures.mapM (fun x _ ↦ groupColumn_sound hb hkeys _ _) columns hcolumns
  rw [(place_keeps _ _ _ _ P h).1]
  simp [isProper, aggregators, hunique, List.all_flatten, List.all_eq_true.mpr hall]

end Groups

theorem column_isRange (hb : b.part = none) (name : String) :
    Ensures (b.column name) (·.isRange = true) :=
  (ensures_true _).bind fun i _ ↦ .ok (isRange_columnAt hb i)

theorem cellTerm_sound {p : PivotRefs} (hindex : p.index.isRange = true)
    (hcolumns : p.columns.isRange = true) (hvalues : p.values.isRange = true) {row col : Term}
    (hrow : row.isCriterion = true) (hcol : col.isCriterion = true) (func : String) :
    Ensures (p.cellTerm func row col) (·.isSound = true) := by
  have hps : Proper [(p.index, row), (p.columns, col)] := by
    simp [Proper, hindex, hcolumns, hrow, hcol]
  have hmatching : (p.matching row col).isSound = true := by
    simp [PivotRefs.matching, isProper, aggregators, isSound_of_isRange, isSound_of_isCriterion, *]
  have haggregate : ∀ f ∈ aggregators,
      (Term.call f (p.values :: p.criteria row col)).isSound = true :=
    fun f hf ↦ (isSound_aggregating hf hvalues hps).mpr (by simp)
  unfold PivotRefs.cellTerm
  split
  · exact .ok (by simp [isProper, aggregators, hmatching])
  · exact .ok (haggregate _ (by decide))
  · exact .ok (haggregate _ (by decide))
  · exact .ok ((isSound_counting hps).mpr (by simp))
  · exact .ok (by simp [isProper, aggregators, hmatching])
  · exact .ok (by simp [isProper, aggregators, hmatching])
  · exact .error _

theorem pivot_sound (hb : b.part = none) (index : List String) (columns values : String)
    (aggfunc : Option String) (colCount rowCount : Option Nat) :
    Ensures (pivot counter index columns values aggfunc colCount rowCount b)
      (·.edits.all isSoundEdit = true) := by
  unfold pivot
  dsimp only
  split
  · exact .error _
  · exact .error _
  refine (column_isRange hb _).bind fun i hi ↦ (column_isRange hb _).bind fun c hc ↦ ?_
  refine (column_isRange hb _).bind fun v hv ↦ (ensures_true _).bind fun _ _ ↦ ?_
  refine Ensures.bind (P := fun cells ↦ ∀ es ∈ cells, ∀ e ∈ es, isSoundEdit e = true) ?_
    fun cells hcells ↦ (ensures_true _).bind fun range _ ↦ .ok ?_
  · refine .mapM fun i _ ↦ .mapM fun j _ ↦ ?_
    refine (cellTerm_sound hi hc hv rfl rfl _).bind fun t ht ↦ .ok ?_
    rw [isSoundEdit_put, isSound_call]
    simp only [List.all_cons, List.all_nil, ht]
    rfl
  · have hflat : cells.flatten.all isSoundEdit = true := by simpa using hcells
    have hi := isSound_of_isRange hi
    have hc := isSound_of_isRange hc
    simp [hflat, headerRow, isProper, aggregators, hi, hc]

section Windows

variable {w : WindowFrame} {number : Nat} {t : Term} {func output : String} {input : Option String}
  {partitionBy : List String} {orderBy : List SortKey} {frame : Datum} {term : Nat → Outcome Term}

theorem partitionPairs_proper (h : w.block.part = none) : Proper (w.partitionPairs number) :=
  List.forall_mem_map.mpr fun _ _ ↦ ⟨isRange_columnAt h _, rfl⟩

theorem orderPairs_proper (h : w.block.part = none) (strict : Bool) :
    Proper (w.orderPairs strict number) := by
  refine List.forall_mem_map.mpr fun k _ ↦ ⟨isRange_columnAt h _, ?_⟩
  cases hd : k.direction <;> cases strict <;> simp [WindowFrame.sign, hd] <;> rfl

theorem tiePairs_proper (h : w.block.part = none) : Proper (w.tiePairs number) := by
  refine List.forall_mem_flatMap.mpr fun k _ ↦ ?_
  have hrow : ∀ i, (Term.call "ROW" [w.block.columnAt i]).isRange = true := fun i ↦ by
    rw [Block.columnAt, Block.rowEnd_of_whole h, Extent.succ_whole]
    rfl
  exact List.forall_mem_cons.mpr ⟨⟨isRange_columnAt h _, rfl⟩,
    List.forall_mem_singleton.mpr ⟨hrow _, rfl⟩⟩

/-- Whether a window is over pairs of a range and a criterion, if it takes any rows together. -/
def narrows (func : String) (partitionBy : List String) (orderBy : List SortKey) : Prop :=
  func = "lag" ∨ func = "lead" ∨ func ≠ "count" ∧ (partitionBy ≠ [] ∨ orderBy ≠ [])

theorem rank_sound (hb : w.block.part = none) {numbered : Bool}
    (ht : w.rank numbered number = .ok t) :
    t.isSound = true ↔ w.partitionBy ≠ [] ∨ w.orderBy ≠ [] := by
  obtain ⟨-, rfl⟩ := WindowFrame.rank_eq_ok.mp ht
  have hpairs : Proper (w.partitionPairs number) := partitionPairs_proper hb
  have hnone : ∀ ps : List (Term × Term), (ps = [] ↔ w.orderBy = []) →
      (w.partitionPairs number ++ ps ≠ [] ↔ w.partitionBy ≠ [] ∨ w.orderBy ≠ []) := by
    intro ps hps
    rw [Ne, List.append_eq_nil_iff, hps, WindowFrame.partitionPairs, List.map_eq_nil_iff, not_and_or]
  have horder : ∀ strict, w.orderPairs strict number = [] ↔ w.orderBy = [] := fun strict ↦ by
    simp [WindowFrame.orderPairs]
  have htie : w.tiePairs number = [] ↔ w.orderBy = [] := by
    rw [WindowFrame.tiePairs]
    cases w.orderBy <;> simp
  cases numbered with
  | false =>
    rw [if_neg Bool.false_ne_true, isSound_counting (hpairs.append (orderPairs_proper hb _)),
      hnone _ (horder _)]
  | true =>
    rw [if_pos rfl, isSound_binary, Bool.and_eq_true,
      isSound_counting (hpairs.append (orderPairs_proper hb _)),
      isSound_counting (hpairs.append (tiePairs_proper hb)), hnone _ (horder _), hnone _ htie,
      and_self_iff]

theorem running_sound (hb : w.block.part = none) {f : String}
    (hf : runningFunction? func = some f) {i : Nat}
    (ht : w.running f (w.block.columnAt i) number = .ok t) :
    t.isSound = true ↔ func ≠ "count" ∧ (w.partitionBy ≠ [] ∨ w.orderBy ≠ []) := by
  obtain ⟨-, rfl⟩ := WindowFrame.running_eq_ok.mp ht
  have hnone : w.partitionPairs number ++ w.orderPairs false number = [] ↔
      w.partitionBy = [] ∧ w.orderBy = [] := by
    simp [WindowFrame.partitionPairs, WindowFrame.orderPairs]
  have hpairs : Proper (w.partitionPairs number ++ w.orderPairs false number) :=
    (partitionPairs_proper hb).append (orderPairs_proper hb _)
  rw [← not_and_or, ← hnone]
  generalize w.partitionPairs number ++ w.orderPairs false number = ps at hpairs
  have haggregates : f ∈ aggregators →
      ((Term.call f
        (w.block.columnAt i :: if ps = [] then [.text ""] else pairArgs ps)).isSound = true ↔
        ps ≠ []) := by
    intro hf
    split
    · next hps =>
      refine iff_of_false ?_ (not_not.mpr hps)
      have hcount : f ≠ "COUNTIFS" := by
        rintro rfl
        simp [aggregators] at hf
      simp [isProper, hf, hcount, arePairs, pairs?]
    · exact isSound_aggregating hf (isRange_columnAt hb i) hpairs
  unfold runningFunction? at hf
  split at hf
  case h_3 =>
    -- counting has its values in front of the pairs
    obtain rfl := Option.some.inj hf
    refine iff_of_false ?_ (by simp)
    split
    · simp [isProper, arePairs, pairs?, Term.isCriterion, Term.isCell]
    · simp [isProper, arePairs, pairs?_cons_pairArgs]
  case h_6 => cases hf
  all_goals
    obtain rfl := Option.some.inj hf
    simpa using haggregates (by decide)

theorem windowTerm_sound (hb : w.block.part = none)
    (hterm : windowTerm w func input frame = .ok term) (ht : term number = .ok t) :
    t.isSound = true ↔ narrows func w.partitionBy w.orderBy := by
  have hlook : ∀ func, shifted w func input frame = .ok term → t.isSound = true := by
    intro func h
    obtain ⟨name, offset, -, -, -, hterms⟩ := shifted_eq_ok h
    obtain rfl := Except.ok.inj ((hterms number).symm.trans ht)
    rfl
  unfold windowTerm at hterm
  split at hterm
  · obtain rfl := Except.ok.inj hterm
    simpa [narrows] using rank_sound hb ht
  · obtain rfl := Except.ok.inj hterm
    simpa [narrows] using rank_sound hb ht
  · exact iff_of_true (hlook _ hterm) (.inl rfl)
  · exact iff_of_true (hlook _ hterm) (.inr (.inl rfl))
  · next hrank hnumber hlag hlead =>
    obtain ⟨f, name, hf, -, -, rfl⟩ := accumulated_eq_ok hterm
    have hother : func ≠ "lag" ∧ func ≠ "lead" := ⟨hlag, hlead⟩
    rw [running_sound hb hf ht, narrows, or_iff_right hother.1, or_iff_right hother.2]

/-- The formulas of a window call conditional functions as they have to be called just when there
are none or the window is over pairs. -/
theorem window_sound (hb : Rooted b)
    (h : window counter func input output partitionBy orderBy frame b = .ok P) :
    P.edits.all isSoundEdit = true ↔ b.range.rowEnd = 0 ∨ narrows func partitionBy orderBy := by
  obtain ⟨rows, term, cells, hrows, hterm, hcells, hedits⟩ := edits_window h
  obtain rfl : b.range.rowEnd = rows := Extent.whole.inj (hb.depth_eq.symm.trans hrows)
  have hcopies : (windowCopies counter b).all isSoundEdit = true := by
    simp [windowCopies, spread, isProper, aggregators, isSound_columnAt]
  rw [hedits, List.all_append, List.all_append, all_isSoundEdit_opening, hcopies, Bool.true_and,
    Bool.true_and, List.all_eq_true]
  have hcell : ∀ e ∈ cells, isSoundEdit e = true ↔ narrows func partitionBy orderBy := by
    intro e he
    obtain ⟨i, -, t, ht, rfl⟩ := exists_of_forall₂ hcells he
    exact windowTerm_sound hb.1 hterm ht
  constructor
  · intro hsound
    rcases Nat.eq_zero_or_pos b.range.rowEnd with hzero | hpos
    · exact .inl hzero
    · obtain ⟨e, he, -⟩ := exists_of_forall₂ hcells.flip (List.mem_range.mpr hpos)
      exact .inr ((hcell e he).mp (hsound e he))
  · rintro (hzero | hnarrow) e he
    · obtain ⟨i, hi, -⟩ := exists_of_forall₂ hcells he
      have := List.mem_range.mp hi
      omega
    · exact (hcell e he).mpr hnarrow

end Windows

/-- Whether the formulas of a node can be as they have to be: all but those of a window with rows
that is not over pairs. -/
def Narrowed (sources : Sources) (n : Plan) : Prop :=
  match n.op, n.inputs with
  | .window func _ _ partitionBy orderBy _, [p] =>
    p.isVacant sources = true ∨ narrows func partitionBy orderBy
  | _, _ => True

theorem placeNode_sound {n : Plan} {k : Nat} (hlaid : Laid sources (n, k) P)
    (hkind : n.kind = .groupBy ∨ n.kind = .pivot ∨ n.kind = .window)
    (htyped : n.op.isTyped = true) :
    P.edits.all isSoundEdit = true ↔ Narrowed sources n := by
  obtain ⟨bs, hbs, hP⟩ := hlaid
  obtain ⟨m, op, is⟩ := n
  simp only [Plan.op, Plan.inputs] at hbs hP htyped
  have hrooted : ∀ b ∈ bs, b.part = none := fun b hb ↦ by
    obtain ⟨p, -, hp⟩ := exists_of_forall₂ hbs hb
    exact hp.rooted.1
  cases op with
  | groupBy keys aggs order cap =>
    obtain ⟨b, hb, hP⟩ := bind_eq_ok.mp hP
    obtain ⟨-, hpart⟩ := only_ensures .groupBy hrooted b hb
    exact iff_of_true (groupBy_sound hpart aggs P hP) trivial
  | pivot index columns values aggfunc =>
    obtain ⟨b, hb, hP⟩ := bind_eq_ok.mp hP
    obtain ⟨cols, -, hP⟩ := bind_eq_ok.mp hP
    obtain ⟨rows, -, hP⟩ := bind_eq_ok.mp hP
    obtain ⟨-, hpart⟩ := only_ensures .pivot hrooted b hb
    exact iff_of_true (pivot_sound hpart _ _ _ _ _ _ P hP) trivial
  | window func input output partitionBy orderBy frame =>
    obtain ⟨b, hb, hP⟩ := bind_eq_ok.mp hP
    obtain ⟨rfl, -⟩ := only_ensures .window hrooted b hb
    cases hbs with
    | cons hmatch hrest =>
      cases hrest
      rw [window_sound hmatch.rooted hP, ← beq_iff_eq, hmatch.vacant]
      rfl
  | loose => cases htyped
  | _ => simp [Plan.kind, Plan.op, Operator.kind] at hkind

/-- In every layout, the formulas of a group or a pivot call conditional functions as they have to
be called: with one pair of a range and a criterion or more, after the range of values unless they
count. The formulas of a window do so just when the window has no rows, looks at a neighbour, or
neither counts nor leaves its rows undivided and unordered. -/
theorem layOut_sound (hp : p.Built) (hc : p.Coherent) (h : layOut p sources optimized = .ok s) :
    ∃ q, chosen p optimized = .ok q ∧ ∀ n k, (n, k) ∈ (q.finished []).zipIdx →
      n.kind = .groupBy ∨ n.kind = .pivot ∨ n.kind = .window →
      ((∀ e ∈ s.edits, Belongs n.kind k e.sheet → isSoundEdit e = true) ↔
        Narrowed sources n) := by
  obtain ⟨q, ps, hq, hrec⟩ := recorded_of_layOut hp hc h
  refine ⟨q, hq, fun n k hn hkind ↦ ?_⟩
  obtain ⟨P, hlaid, hedits⟩ := hrec.exists_laid hn
  have hbuilt : n.Built := Plan.all_of_mem (chosen_built hp hq)
    ((chosen_coherent hp hc hq).enumerates.reached n (List.fst_mem_of_mem_zipIdx hn))
  have htyped : n.op.isTyped = true := by
    obtain ⟨m, op, is⟩ := n
    exact (Plan.built_node.mp hbuilt).1.1
  rw [← placeNode_sound hlaid hkind htyped, List.all_eq_true]
  constructor
  · intro hsound e he
    obtain ⟨hmem, hbelongs⟩ := (hedits e).mpr he
    exact hsound e hmem hbelongs
  · intro hsound e he hbelongs
    exact hsound e ((hedits e).mp ⟨he, hbelongs⟩)

def windowed (func : String) : Plan :=
  .node (some 1) (.window func (some "b") "w" ["a"] [⟨"b", .asc⟩] .null)
    [.node (some 0) (.source "t" (some ["a", "b"]) none) []]

def windowRows : Sources :=
  [("t", .list [.list [.int 1, .int 2], .list [.int 3, .int 4]])]

theorem built_windowed {func : String} (h : func ≠ "") : (windowed func).Built := by
  simp [Plan.built_node, windowed, Operator.isTyped, Operator.Accepts, h]

theorem coherent_windowed (func : String) : (windowed func).Coherent := by
  refine Plan.Coherent.of_nodup ?_ ?_ <;>
    simp [windowed, Plan.occurrences, Plan.occurrencesList, Plan.marksOf, Plan.mark]

theorem layOut_sound_sum : ∃ s, layOut (windowed "sum") windowRows false = .ok s ∧
    ∀ e ∈ s.edits, Belongs .window 1 e.sheet → isSoundEdit e = true := by
  obtain ⟨s, hs⟩ : ∃ s, layOut (windowed "sum") windowRows false = .ok s := ⟨_, rfl⟩
  obtain ⟨q, hq, hall⟩ := layOut_sound (built_windowed (by decide)) (coherent_windowed _) hs
  obtain rfl := Except.ok.inj hq
  refine ⟨s, hs, (hall (windowed "sum") 1 ?_ (.inr (.inr rfl))).mpr (.inr (.inr (.inr ?_)))⟩
  · simp [windowed, Plan.finished, Plan.finishedList]
  · simp

/-- A count has the range of its values in front of the pairs. -/
theorem layOut_count : ∃ s, layOut (windowed "count") windowRows false = .ok s ∧
    (Edit.formula "Window_1" 1 2 ("=COUNTIFS(Source_0!B2:B3, Source_0!A2:A3, Window_1!A2, " ++
      "Source_0!B2:B3, \"<=\"&Window_1!B2)") none).toDatum ∈ s.written.map Edit.toDatum ∧
    ¬∀ e ∈ s.edits, isSoundEdit e = true :=
  Outcome.exists_of_any (by decide +kernel)

end Gridplan.Layout
