import Gridplan.Proofs.Layout.Headings
import Gridplan.Proofs.Layout.Record
import Gridplan.Proofs.Layout.Windows

namespace Gridplan

open Layout

/-- Whether a plan is an inner join whose right side has no columns but keys. -/
def Plan.isSemijoin : Plan → Bool
  | .node _ (.join _ rightOn .inner _) [_, r] => r.columns.all (rightOn.contains ·)
  | _ => false

theorem Plan.isVacant_of_columns {sources : Sources} {p : Plan} (h : p.Drawable sources)
    (hcols : p.columns = []) : p.isVacant sources = false := by
  obtain ⟨m, op, is⟩ := p
  have hsuits := (Plan.all_node.mp h).1.1
  rw [Plan.columns_node] at hcols
  rw [Plan.isVacant_node]
  unfold Operator.isVacant
  split
  · exact absurd hcols hsuits
  · next e v hv =>
    obtain ⟨i, rfl⟩ : ∃ i, is = [i] :=
      List.length_eq_one_iff.mp (by simpa using congrArg List.length hv)
    exact absurd hcols hsuits.1
  · rfl

namespace Layout

open Formula
open Outcome (Ensures)
open List (Forall₂)

variable {sources : Sources} {counter : Nat} {sheet : String} {schema : List String}
  {before body : List Step} {ps : List (Nat × Nat)} {b : Block} {P : Placement} {C : Prop}

def Titles (e : Step) : Prop :=
  ∀ sheet row col cells, e = .values sheet row col cells →
    row = 0 ∧ ∃ names : List String, cells = .list [Datum.ofTexts names]

@[simp] theorem titles_create (name : String) (rows : Number) (cols : Int) :
    Titles (.create name rows cols) := by simp [Titles]

@[simp] theorem titles_put (sheet : String) (row col : Nat) (t : Term) :
    Titles (put sheet row col t) := by simp [Titles, put]

@[simp] theorem titles_header (sheet : String) (schema : List String) :
    Titles (header sheet schema) := by
  intro _ _ _ _ h
  cases h
  exact ⟨rfl, schema, rfl⟩

theorem titles_puts (h : Forall₂ (Put sheet) ps body) : ∀ e ∈ body, Titles e := by
  intro e he
  obtain ⟨p, -, t, rfl⟩ := exists_of_forall₂ h he
  exact titles_put _ _ _ _

theorem titles_opening (sheet : String) (rows : Extent) (schema : List String) :
    ∀ e ∈ opening sheet rows schema, Titles e := by simp [opening]

def Starts (sheet : String) (es : List Step) : Prop :=
  ∃ t needs, .formula sheet 1 0 t needs ∈ es

def isStart (sheet : String) : Step → Bool
  | .formula name row col _ _ => name == sheet && row == 1 && col == 0
  | _ => false

instance (sheet : String) (es : List Step) : Decidable (Starts sheet es) :=
  decidable_of_iff (es.any (isStart sheet) = true) <| by
    rw [List.any_eq_true]
    constructor
    · rintro ⟨e, he, hstart⟩
      cases e with
      | formula name row col t needs =>
        obtain ⟨⟨rfl, rfl⟩, rfl⟩ : (name = sheet ∧ row = 1) ∧ col = 0 := by
          simpa [isStart] using hstart
        exact ⟨t, needs, he⟩
      | _ => cases hstart
    · rintro ⟨t, needs, he⟩
      exact ⟨_, he, by simp [isStart]⟩

/-- Whether a placement has no values but headers and starts its block with a formula, the latter
under a condition. -/
structure Derives (C : Prop) (P : Placement) : Prop where
  titles : ∀ e ∈ P.edits, Titles e
  starts : Starts P.block.sheet P.edits ↔ C

theorem Derives.of_iff {D : Prop} (h : Derives C P) (hiff : C ↔ D) : Derives D P :=
  ⟨h.titles, h.starts.trans hiff⟩

theorem Formed.titles (h : Formed before sheet schema ps P) (hbefore : ∀ e ∈ before, Titles e) :
    ∀ e ∈ P.edits, Titles e := by
  obtain ⟨rows, body, hedits, hputs⟩ := h.edits
  rw [hedits]
  exact List.forall_mem_append.mpr
    ⟨hbefore, List.forall_mem_append.mpr ⟨titles_opening _ _ _, titles_puts hputs⟩⟩

theorem Formed.sheet_eq (h : Formed [] sheet schema ps P) : ∀ e ∈ P.edits, e.sheet = sheet := by
  obtain ⟨rows, body, hedits, hputs⟩ := h.edits
  rw [hedits, List.nil_append]
  refine List.forall_mem_append.mpr ⟨by simp [opening, header, Edit.sheet], fun e he ↦ ?_⟩
  obtain ⟨p, -, t, rfl⟩ := exists_of_forall₂ hputs he
  rfl

theorem Formed.derives (h : Formed before sheet schema ps P) (hbefore : ∀ e ∈ before, Titles e)
    (hfirst : (1, 0) ∈ ps) : Derives True P := by
  obtain ⟨rows, body, hedits, hputs⟩ := h.edits
  obtain ⟨e, he, t, rfl⟩ := exists_of_forall₂ hputs.flip hfirst
  refine ⟨h.titles hbefore, iff_of_true ?_ trivial⟩
  rw [hedits, h.block]
  exact ⟨t, none, List.mem_append_right _ (List.mem_append_right _ he)⟩

theorem Formed.derives_single (h : Formed [] sheet schema [(1, 0)] P) : Derives True P :=
  h.derives (List.forall_mem_nil _) (List.mem_singleton.mpr rfl)

theorem mem_across_first {n : Nat} (h : 0 < n) : (1, 0) ∈ across 0 n :=
  mem_across.mpr ⟨rfl, le_rfl, by simpa using h⟩

theorem Formed.derives_across {n : Nat} (h : Formed [] sheet schema (across 0 n) P)
    (hn : schema.length = n) : Derives True P :=
  h.derives (List.forall_mem_nil _) (mem_across_first (hn ▸ h.pos))

/-- The first column is the computed one or a copy. -/
theorem mem_computedCells {column : String} {j : Nat} (hj : position schema column = .ok j)
    (hpos : 0 < schema.length) : (1, 0) ∈ computedCells schema column j := by
  obtain ⟨name, names, rfl⟩ := List.exists_cons_of_length_pos hpos
  by_cases hname : column = name
  · have : j = 0 := by
      simpa [position, List.idxOf?, List.findIdx?_cons, hname] using hj.symm
    simp [computedCells, this]
  · refine List.mem_append_left _ (List.mem_map.mpr
      ⟨(name, 0), List.mem_filter.mpr ⟨by simp, ?_⟩, rfl⟩)
    simpa using Ne.symm hname

theorem outerJoin_derives {s : Sides} : Ensures (outerJoin counter s) (Derives True) := by
  refine outerJoin_formed.mono fun P hP ↦ ?_
  obtain ⟨J, A, hJ, hA, hP⟩ := hP
  refine hP.derives (List.forall_mem_append.mpr ⟨?_, ?_⟩) (List.mem_singleton.mpr rfl)
  · exact hJ.titles (List.forall_mem_nil _)
  · exact hA.titles (List.forall_mem_nil _)

theorem innerJoin_derives {s : Sides} :
    Ensures (innerJoin counter s) (Derives (s.carried ≠ [])) := by
  refine innerJoin_formed.mono fun P hP ↦ ?_
  obtain ⟨J, hJ, hP⟩ := hP
  have htitles := hJ.titles (List.forall_mem_nil _)
  by_cases hcarried : s.carried = []
  · rw [if_pos hcarried] at hP
    refine ⟨hP.titles htitles, iff_of_false ?_ (not_not.mpr hcarried)⟩
    rintro ⟨t, needs, ht⟩
    obtain ⟨rows, body, hedits, hputs⟩ := hP.edits
    obtain rfl := List.forall₂_nil_left_iff.mp hputs
    rw [hedits, hP.block, List.append_nil] at ht
    rcases List.mem_append.mp ht with ht | ht
    · simpa [Edit.sheet] using hJ.sheet_eq _ ht
    · simp [opening, header] at ht
  · rw [if_neg hcarried] at hP
    exact (hP.derives htitles (List.mem_singleton.mpr rfl)).of_iff (iff_of_true trivial hcarried)

theorem pivot_derives (index : List String) (columns values : String) (aggfunc : Option String)
    (colCount rowCount : Option Nat) :
    Ensures (pivot counter index columns values aggfunc colCount rowCount b) (Derives True) := by
  unfold pivot
  dsimp only
  split
  · exact .error _
  · exact .error _
  refine .skip fun i ↦ .skip fun c ↦ .skip fun v ↦ .skip fun _ ↦ ?_
  refine Ensures.bind (P := fun ess ↦ ∀ es ∈ ess, ∀ e ∈ es, Titles e) ?_ fun cells hcells ↦
    .skip fun range ↦ .ok ⟨?_, iff_of_true ⟨.call "UNIQUE" [i], none, by simp [put]⟩ trivial⟩
  · refine .mapM fun i _ ↦ .mapM fun j _ ↦ .skip fun t ↦ .ok (titles_put _ _ _ _)
  · simpa using fun e es hes ↦ hcells es hes e

theorem window_derives (func : String) (input : Option String) (output : String)
    (partitionBy : List String) (orderBy : List SortKey) (frame : Datum) (hb : Rooted b)
    (hpos : b.schema = [] → b.range.rowEnd ≠ 0) :
    Ensures (window counter func input output partitionBy orderBy frame b) (Derives True) := by
  refine (window_formed func input output partitionBy orderBy frame).mono fun P hP ↦ ?_
  obtain ⟨n, hn, hP⟩ := hP
  obtain rfl : b.range.rowEnd = n := by simpa [hb.depth_eq] using hn
  refine hP.derives (List.forall_mem_nil _) ?_
  by_cases hschema : b.schema = []
  · refine List.mem_append_right _ (List.mem_map.mpr ⟨0, List.mem_range.mpr ?_, by simp [hschema]⟩)
    exact Nat.pos_of_ne_zero (hpos hschema)
  · exact List.mem_append_left _ (mem_across_first (List.length_pos_iff.mpr hschema))

theorem Laid.valued {n : Plan} {k : Nat} (h : Laid sources (n, k) P) {id : String}
    {schema : Option (List String)} {data : Option Frame} (hop : n.op = .source id schema data) :
    .values P.block.sheet 1 0 ((sources.lookup id).getD (.list [])) ∈ P.edits ∧
      ∀ sheet row col t needs, .formula sheet row col t needs ∉ P.edits := by
  obtain ⟨bs, -, hP⟩ := h
  simp only [hop] at hP
  obtain ⟨hedits, hblock⟩ := source_drawn _ _ P hP
  rw [hedits, hblock.sheet]
  simp [opening, header]

theorem Laid.derives {n : Plan} {k : Nat} (h : Laid sources (n, k) P) (ht : n.op.isTyped = true)
    (hd : n.Drawable sources) (hk : n.kind ≠ .source) : Derives (n.isSemijoin = false) P := by
  obtain ⟨bs, hbs, hP⟩ := h
  obtain ⟨m, op, is⟩ := n
  have hinputs := (Plan.all_node.mp hd).2
  simp only [Plan.op, Plan.inputs] at hbs hP ht
  have hall (hno : (Plan.node m op is).isSemijoin = false)
      (hens : Ensures (placeNode sources k op is bs) (Derives True)) :
      Derives ((Plan.node m op is).isSemijoin = false) P :=
    (hens P hP).of_iff (iff_of_true trivial hno)
  cases op with
  | source id schema data => exact absurd rfl hk
  | select columns predicate =>
    exact hall rfl (.skip fun b ↦ (select_formed _ _).mono fun _ h ↦ h.derives_single)
  | filter predicate =>
    exact hall rfl (.skip fun b ↦ (filter_formed _).mono fun _ h ↦ h.derives_single)
  | join leftOn rightOn kind suffixes =>
    cases kind with
    | left => exact hall rfl (.skip fun lr ↦ leftJoin_formed.mono fun _ h ↦ h.derives_across rfl)
    | right => exact hall rfl (.skip fun lr ↦ rightJoin_formed.mono fun _ h ↦ h.derives_across rfl)
    | outer => exact hall rfl (.skip fun lr ↦ outerJoin_derives)
    | inner =>
      obtain ⟨⟨l, r⟩, hlr, hP⟩ := Outcome.bind_eq_ok.mp hP
      obtain ⟨rfl, -⟩ := both_ensures .join (fun _ _ ↦ trivial) _ hlr
      obtain ⟨i, _, j, _, rfl, heq, -, hj⟩ := eq_pair_of_forall₂ hbs rfl
      cases heq
      refine (innerJoin_derives P hP).of_iff ?_
      have hschema : r.schema = j.columns := hj.schema
      simp [Sides.carried, hschema, Plan.isSemijoin]
  | groupBy keys aggs order cap =>
    refine hall rfl (.skip fun b ↦ (groupBy_formed _ _).mono fun _ h ↦ ?_)
    exact h.2.derives (List.forall_mem_nil _) List.mem_cons_self
  | aggregate aggs =>
    exact hall rfl (.skip fun b ↦ (aggregate_formed _).mono fun _ h ↦ h.derives_across (by simp))
  | sort keys cap predicate =>
    exact hall rfl (.skip fun b ↦ (sort_formed _ _ _).mono fun _ h ↦ h.derives_single)
  | limit count side =>
    exact hall rfl (.skip fun b ↦ (limit_formed _ _).mono fun _ h ↦ h.derives_single)
  | withColumn column expression =>
    refine hall rfl (.skip fun b ↦ (withColumn_formed _ _).mono fun _ h ↦ ?_)
    obtain ⟨j, hj, h⟩ := h
    exact h.derives (List.forall_mem_nil _) (mem_computedCells hj h.pos)
  | union => exact hall rfl (.skip fun lr ↦ union_formed.mono fun _ h ↦ h.derives_single)
  | pivot index columns values aggfunc =>
    exact hall rfl (.skip fun b ↦ .skip fun cols ↦ .skip fun rows ↦ pivot_derives _ _ _ _ _ _)
  | melt idVars valueVars varName valueName =>
    exact hall rfl (.skip fun b ↦ (melt_formed _ _ _ _).mono fun _ h ↦ h.derives_across (by simp))
  | window func input output partitionBy orderBy frame =>
    refine hall rfl ((only_ensures .window fun b hb ↦ exists_of_forall₂ hbs hb).bind ?_)
    rintro b ⟨-, i, hi, hb⟩
    refine window_derives _ _ _ _ _ _ hb.rooted fun hschema hzero ↦ ?_
    have hvacant := Plan.isVacant_of_columns (hinputs i hi) (hb.schema ▸ hschema)
    simp [← hb.vacant, hzero] at hvacant
  | bare | loose => cases ht

variable {p : Plan} {s : Progress} {optimized : Bool}

/-- In every layout, the sheet of a source has its rows as values and no formula. The sheet of any
other node has no values but its header, and a formula in the first cell below it unless the node is
an inner join whose right side has no columns but keys. -/
theorem layOut_derived (hp : p.Built) (hc : p.Coherent) (h : layOut p sources optimized = .ok s) :
    ∃ q, chosen p optimized = .ok q ∧ Forall₂ (fun n b ↦
      (∀ id schema data, n.op = .source id schema data →
        .values b.sheet 1 0 ((sources.lookup id).getD (.list [])) ∈ s.edits ∧
        ∀ row col t needs, .formula b.sheet row col t needs ∉ s.edits) ∧
      (n.kind ≠ .source →
        (∀ row col cells, .values b.sheet row col cells ∈ s.edits →
          row = 0 ∧ ∃ names : List String, cells = .list [Datum.ofTexts names]) ∧
        (Starts b.sheet s.edits ↔ n.isSemijoin = false))) (q.finished []) s.blocks := by
  obtain ⟨q, hq, hlaid⟩ := laid_of_layOut hp hc h
  obtain ⟨q', hq', hdrawable⟩ := (succeeds_layOut hp hc optimized).mp ⟨s, h⟩
  obtain rfl := Except.ok.inj (hq.symm.trans hq')
  refine ⟨q, hq, hlaid.imp ?_⟩
  rintro n b ⟨hn, k, P, rfl, hlaid, hmem⟩
  have hreached := (chosen_coherent hp hc hq).enumerates.reached n hn
  have htyped := Plan.isTyped_of_built (Plan.all_of_mem (chosen_built hp hq) hreached)
  constructor
  · intro id schema data hop
    obtain ⟨hvalues, hnone⟩ := hlaid.valued hop
    exact ⟨(hmem _ rfl).mpr hvalues, fun row col t needs ht ↦ hnone _ _ _ _ _ ((hmem _ rfl).mp ht)⟩
  · intro hkind
    have hderives := hlaid.derives htyped (Plan.all_of_mem hdrawable hreached) hkind
    refine ⟨fun row col cells hcells ↦ ?_, ?_⟩
    · exact hderives.titles _ ((hmem _ rfl).mp hcells) _ _ _ _ rfl
    · rw [← hderives.starts]
      exact exists_congr fun t ↦ exists_congr fun needs ↦ hmem _ rfl

def partnered (kind : JoinKind) : Plan :=
  .node (some 2) (.join ["k"] ["k"] kind (some "_x", some "_y"))
    [.node (some 0) (.source "s" (some ["k", "v"]) none) [],
      .node (some 1) (.source "t" (some ["k"]) none) []]

theorem built_partnered (kind : JoinKind) : (partnered kind).Built := by
  simp [Plan.built_node, partnered, Operator.isTyped, Operator.Accepts, Plan.Offers, Plan.schema?]

theorem coherent_partnered (kind : JoinKind) : (partnered kind).Coherent := by
  refine Plan.Coherent.of_nodup ?_ ?_ <;>
    simp [partnered, Plan.occurrences, Plan.occurrencesList, Plan.marksOf, Plan.mark]

theorem layOut_derived_outer : ∃ s, layOut (partnered .outer) [] false = .ok s ∧
    Forall₂ (fun n b ↦
      (∀ id schema data, n.op = .source id schema data →
        .values b.sheet 1 0 (([].lookup id).getD (.list [])) ∈ s.edits ∧
        ∀ row col t needs, .formula b.sheet row col t needs ∉ s.edits) ∧
      (n.kind ≠ .source →
        (∀ row col cells, .values b.sheet row col cells ∈ s.edits →
          row = 0 ∧ ∃ names : List String, cells = .list [Datum.ofTexts names]) ∧
        (Starts b.sheet s.edits ↔ n.isSemijoin = false)))
      ((partnered .outer).finished []) s.blocks := by
  obtain ⟨s, hs⟩ : ∃ s, layOut (partnered .outer) [] false = .ok s :=
    Outcome.succeeds_of_isOk (by decide)
  obtain ⟨q, hq, hall⟩ := layOut_derived (built_partnered _) (coherent_partnered _) hs
  obtain rfl := Except.ok.inj hq
  exact ⟨s, hs, hall⟩

/-- The rows with a partner stand nowhere: their sheet has only a header. -/
theorem layOut_partnered : ∃ s, layOut (partnered .inner) [] false = .ok s ∧
    s.blocks.map (·.sheet) = ["Source_0", "Source_1", "Join_2_filtered"] ∧
    ¬Starts "Join_2_filtered" s.edits :=
  Outcome.exists_of_any (by decide)

end Layout

end Gridplan
