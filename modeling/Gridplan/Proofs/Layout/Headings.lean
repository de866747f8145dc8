import Gridplan.Plan.Heading
import Gridplan.Proofs.Layout.Labels

namespace Gridplan

/-- What an operator makes of guesses of the columns of its inputs. -/
def Operator.guess : Operator → List (List String) → List String
  | .source _ schema _, _ => schema.getD []
  | .select names _, _ => names
  | .groupBy keys aggs _ _, _ => keys ++ aggs.map (·.output)
  | .aggregate aggs, _ => aggs.map (·.output)
  | .withColumn name _, [s] => Layout.withName s name
  | _, [s] => s
  | _, _ => []

def Operator.isStating : Operator → Bool
  | .source .. | .select .. | .groupBy .. | .aggregate .. => true
  | _ => false

theorem Datum.ofTexts_injective {xs ys : List String} (h : ofTexts xs = ofTexts ys) : xs = ys :=
  map_text_inj.mp (Datum.list.inj h)

namespace Plan

mutual

/-- The columns of a plan as far as its nodes tell, empty where nothing is known. -/
def guess : Plan → List String
  | .node _ op is => op.guess (guessList is)

def guessList : List Plan → List (List String)
  | [] => []
  | p :: ps => guess p :: guessList ps

end

mutual

def traced : Plan → List Plan
  | .node m op is => .node m op is :: if op.isStating then [] else tracedOnly is

def tracedOnly : List Plan → List Plan
  | [p] => traced p
  | _ => []

end

variable {m : Option Nat} {op : Operator} {is : List Plan} {p q x : Plan}

theorem guess_node (m : Option Nat) (op : Operator) (is : List Plan) :
    guess (.node m op is) = op.guess (is.map guess) := by
  rw [guess, eq_map_of_cons (g := guessList) rfl fun _ _ ↦ rfl]

theorem traced_one (h : op.isStating = false) :
    traced (.node m op [x]) = .node m op [x] :: x.traced := by
  simp [traced, h, tracedOnly]

theorem mem_traced_self (p : Plan) : p ∈ p.traced := by
  cases p
  simp [traced]

theorem mem_occurrences_of_traced (h : q ∈ p.traced) : q ∈ p.occurrences := by
  induction p with
  | node m op is ih =>
    rw [traced, List.mem_cons] at h
    rcases h with rfl | h
    · exact mem_occurrences_self _
    · split at h
      · cases h
      · unfold tracedOnly at h
        split at h
        · next x => exact mem_occurrences_node.mpr (.inr ⟨x, by simp, ih x (by simp) h⟩)
        · cases h

theorem outputNames_eq (aggs : List Aggregation) :
    outputNames (.raw (.list (aggs.map Aggregation.toTuple))) =
      .ok (Datum.ofTexts (aggs.map (·.output))) := by
  have hnames : (aggs.map Aggregation.toTuple).mapM Datum.first =
      .ok ((aggs.map (·.output)).map .text) := by
    rw [List.mapM_map, List.map_map]
    exact Outcome.mapM_ok fun a _ ↦ rfl
  simp [outputNames, Datum.items, hnames, Datum.ofTexts]

theorem heading_eq (h : p.Built) : p.heading = .ok (Datum.ofTexts p.guess) := by
  induction p with
  | node m op is ih =>
    obtain ⟨⟨ht, ha⟩, his⟩ := built_node.mp h
    have hlen := ha.length
    rw [guess_node]
    cases op with
    | loose | bare => cases ht
    | source id schema data =>
      obtain rfl : is = [] := ha
      rcases schema with _ | _ | ⟨n, ns⟩ <;> rfl
    | select names c =>
      obtain ⟨x, rfl⟩ := List.length_eq_one_iff.mp hlen
      rfl
    | groupBy keys aggs order cap =>
      obtain ⟨x, rfl⟩ := List.length_eq_one_iff.mp hlen
      have hadd : (Datum.ofTexts keys).add (Datum.ofTexts (aggs.map (·.output))) =
          .ok (Datum.ofTexts (keys ++ aggs.map (·.output))) := by
        simp [Datum.add, Datum.ofTexts]
      calc
        _ = outputNames (.raw (.list (aggs.map Aggregation.toTuple))) >>=
            (Datum.ofTexts keys).add := rfl
        _ = _ := by rw [outputNames_eq, Outcome.ok_bind, hadd]; rfl
    | aggregate aggs =>
      obtain ⟨x, rfl⟩ := List.length_eq_one_iff.mp hlen
      exact outputNames_eq aggs
    | withColumn name e =>
      obtain ⟨x, rfl⟩ := List.length_eq_one_iff.mp hlen
      have hx := ih x (by simp) (his x (by simp))
      have hcolumn : given (Operator.withColumn name e).params "column" = .ok (.text name) := rfl
      rw [heading]
      simp only [Operator.kind, hx, hcolumn, Outcome.ok_bind, Datum.contains_ofTexts,
        Operator.guess, Layout.withName, List.map_cons, List.map_nil]
      split <;> simp [Datum.add, Datum.ofTexts]
    | join | union =>
      obtain ⟨x, y, rfl⟩ := List.length_eq_two.mp hlen
      rfl
    | _ =>
      obtain ⟨x, rfl⟩ := List.length_eq_one_iff.mp hlen
      exact ih x (by simp) (his x (by simp))

/-- Whether the guess, if there is one, has the columns that the plan is laid out with. -/
def IsGuessed (p : Plan) : Prop := p.guess ≠ [] → p.columns = p.guess

end Plan

/-- Whether a guess that is right for the inputs is right for the operator over them. -/
def Operator.Candid : Operator → List Plan → Prop
  | .withColumn name _, [x] => x.guess = [] → x.columns = [] ∨ x.columns = [name]
  | .melt idVars _ varName valueName, [x] =>
    x.guess ≠ [] → x.columns = idVars ++ [varName, valueName]
  | .pivot .., [x] | .window .., [x] => x.guess = []
  | _, _ => True

theorem Layout.withName_eq_singleton {ns : List String} {n : String} :
    withName ns n = [n] ↔ ns = [] ∨ ns = [n] := by
  unfold withName
  split
  · next h =>
    have hne : ns ≠ [] := by rintro rfl; cases h
    simp [hne]
  · next h =>
    have hne : ns ≠ [n] := by rintro rfl; simp at h
    simp [hne]

namespace Plan

variable {m : Option Nat} {op : Operator} {is : List Plan} {p q x : Plan}

theorem isGuessed_of_isStating (h : op.isStating = true) : IsGuessed (.node m op is) := by
  intro _
  rw [guess_node, columns_node]
  cases op with
  | source | select | groupBy | aggregate => rfl
  | _ => cases h

/-- Over an input that is guessed right a node is guessed right exactly when it is candid. -/
theorem isGuessed_iff_candid (hb : (Plan.node m op is).Built) (hs : op.isStating = false)
    (hin : ∀ x ∈ is, is = [x] → x.IsGuessed) : IsGuessed (.node m op is) ↔ op.Candid is := by
  obtain ⟨⟨ht, ha⟩, -⟩ := built_node.mp hb
  have hlen := ha.length
  rw [IsGuessed, guess_node, columns_node]
  cases op with try obtain ⟨x, rfl⟩ := List.length_eq_one_iff.mp hlen
  | source | select | groupBy | aggregate => cases hs
  | loose | bare => cases ht
  | join | union =>
    obtain ⟨x, y, rfl⟩ := List.length_eq_two.mp hlen
    simp [Operator.guess, Operator.Candid]
  | filter | sort | limit =>
    exact iff_of_true (hin x (by simp) rfl) trivial
  | withColumn name e =>
    have hx := hin x (by simp) rfl
    simp only [Operator.guess, Operator.columns, Operator.Candid, List.map_cons, List.map_nil]
    by_cases hg : x.guess = []
    · rw [hg, ← Layout.withName_eq_singleton]
      simp [Layout.withName]
    · simp [hg, hx hg]
  | melt idVars valueVars varName valueName =>
    have hx := hin x (by simp) rfl
    refine forall_congr' fun hg ↦ ?_
    simp only [Operator.guess, Operator.columns, List.map_cons, List.map_nil]
    rw [hx hg, eq_comm]
  | pivot index columns values aggfunc =>
    simp only [Operator.guess, Operator.columns, Operator.Candid, List.map_cons, List.map_nil]
    by_cases hg : x.guess = [] <;> simp [hg]
  | window func input output partitionBy orderBy frame =>
    have hx := hin x (by simp) rfl
    simp only [Operator.guess, Operator.columns, Operator.Candid, List.map_cons, List.map_nil]
    by_cases hg : x.guess = []
    · simp [hg]
    · simp [hg, hx hg]

theorem traced_isGuessed_iff (hb : p.Built) :
    (∀ n ∈ p.traced, n.IsGuessed) ↔ ∀ n ∈ p.traced, n.op.Candid n.inputs := by
  induction p with
  | node m op is ih =>
    have his := (built_node.mp hb).2
    rw [traced]
    cases hs : op.isStating with
    | true =>
      have hcandid : op.Candid is := by
        cases op with
        | source | select | groupBy | aggregate => trivial
        | _ => cases hs
      simp [isGuessed_of_isStating hs, hcandid, Plan.op, Plan.inputs]
    | false =>
      have htail : (∀ n ∈ tracedOnly is, n.IsGuessed) ↔
          ∀ n ∈ tracedOnly is, n.op.Candid n.inputs := by
        unfold tracedOnly
        split
        · next x => exact ih x (by simp) (his x (by simp))
        · simp
      simp only [Bool.false_eq_true, if_false, List.forall_mem_cons, htail]
      refine and_congr_left fun hcandid ↦ isGuessed_iff_candid hb hs ?_
      rintro x - rfl
      exact htail.mpr hcandid x (mem_traced_self x)

end Plan

namespace Layout

open Plan

variable {p : Plan} {sources : Sources} {s : Progress}

/-- A plan that is laid out has a heading at every node that its own heading is taken from. There
the heading is empty or has the columns of the node's block, exactly when each of these nodes is
candid. The heading of the plan, if it is not empty, then has the columns of the last block. -/
theorem layOut_guessed (hb : p.Built) (hc : p.Coherent) (h : layOut p sources false = .ok s) :
    (List.Forall₂ (fun n b ↦ n ∈ p.traced → ∃ names, n.heading = .ok (Datum.ofTexts names) ∧
        (names ≠ [] → b.schema = names)) (p.finished []) s.blocks ↔
      ∀ n ∈ p.traced, n.op.Candid n.inputs) ∧
    ((∀ n ∈ p.traced, n.op.Candid n.inputs) → ∃ names b, p.heading = .ok (Datum.ofTexts names) ∧
      s.blocks.getLast? = some b ∧ (names ≠ [] → b.schema = names)) := by
  have hblocks : List.Forall₂ (fun n b ↦ n ∈ p.traced →
      ∃ names, n.heading = .ok (Datum.ofTexts names) ∧ (names ≠ [] → b.schema = names))
      (p.finished []) s.blocks ↔ ∀ n ∈ p.finished [], n ∈ p.traced → n.IsGuessed := by
    refine forall₂_iff_forall (layOut_lists hb hc h) fun n b hnb ↦ forall_congr' fun hn ↦ ?_
    rw [heading_eq (all_of_mem hb (mem_occurrences_of_traced hn)), hnb]
    constructor
    · rintro ⟨names, heq, himp⟩
      obtain rfl := Datum.ofTexts_injective (Except.ok.inj heq)
      exact himp
    · exact fun himp ↦ ⟨n.guess, rfl, himp⟩
  have htraced : (∀ n ∈ p.finished [], n ∈ p.traced → n.IsGuessed) ↔
      ∀ n ∈ p.traced, n.op.Candid n.inputs := by
    rw [← traced_isGuessed_iff hb]
    exact ⟨fun hg n hn ↦ hg n (hc.mem_finished (mem_occurrences_of_traced hn)) hn,
      fun hg n _ hn ↦ hg n hn⟩
  refine ⟨hblocks.trans htraced, fun hcandid ↦ ?_⟩
  have hlast := hblocks.mpr (htraced.mpr hcandid)
  obtain ⟨m, op, is⟩ := p
  rw [finished, if_neg (by cases m <;> simp)] at hlast
  obtain ⟨b, hb, hnames⟩ := getLast?_of_forall₂ hlast
  obtain ⟨names, hheading, himp⟩ := hnames (mem_traced_self _)
  exact ⟨names, b, hheading, hb, himp⟩

def sequenced : Plan :=
  .node (some 1) (.window "row_number" none "r" [] [⟨"a", .asc⟩] .null)
    [.node (some 0) (.source "t" (some ["k", "a"]) none) []]

def apportioned : Plan :=
  .node (some 3) (.withColumn "b" (.column "total"))
    [.node (some 2) (.groupBy ["k"] [⟨"total", "sum", "a"⟩] [] none) [sequenced]]

theorem layOut_guessed_apportioned : apportioned.Built ∧ apportioned.Coherent ∧
    (∀ n ∈ apportioned.traced, n.op.Candid n.inputs) ∧
    ∃ s b, layOut apportioned [] false = .ok s ∧
      apportioned.heading = .ok (Datum.ofTexts ["k", "total", "b"]) ∧
      s.blocks.getLast? = some b ∧ b.schema = ["k", "total", "b"] := by
  have hb : apportioned.Built := by
    simp [built_node, apportioned, sequenced, Operator.isTyped, Operator.Accepts, Offers, schema?,
      Expr.isFilled, Expr.columns]
  have hc : apportioned.Coherent := .of_nodup (by decide +kernel) (by decide +kernel)
  have hcandid : ∀ n ∈ apportioned.traced, n.op.Candid n.inputs := by
    simp [apportioned, traced, tracedOnly, Operator.isStating, Operator.Candid, Plan.op,
      Plan.inputs, guess, Operator.guess]
  obtain ⟨s, hs⟩ := Outcome.succeeds_of_isOk (x := layOut apportioned [] false) (by decide +kernel)
  obtain ⟨names, b, hheading, hlast, hschema⟩ := (layOut_guessed hb hc hs).2 hcandid
  have hnames : apportioned.heading = .ok (Datum.ofTexts ["k", "total", "b"]) := rfl
  obtain rfl := Datum.ofTexts_injective (Except.ok.inj (hheading.symm.trans hnames))
  exact ⟨hb, hc, hcandid, s, b, hs, hnames, hlast, hschema (by simp)⟩

/-- The heading of numbered rows lacks the column of the numbers. -/
theorem layOut_sequenced : sequenced.Built ∧ sequenced.Coherent ∧ ∃ s b,
    layOut sequenced [] false = .ok s ∧ sequenced.heading = .ok (Datum.ofTexts ["k", "a"]) ∧
      s.blocks.getLast? = some b ∧ b.schema = ["k", "a", "r"] := by
  refine ⟨?_, .of_nodup (by decide +kernel) (by decide +kernel), ?_⟩
  · simp [built_node, sequenced, Operator.isTyped, Operator.Accepts]
  · obtain ⟨s, hs, hlast⟩ := Outcome.exists_of_any (x := layOut sequenced [] false)
      (P := fun s ↦ s.blocks.getLast?.map (·.schema) = some ["k", "a", "r"]) (by decide +kernel)
    obtain ⟨b, hb, hschema⟩ := Option.map_eq_some_iff.mp hlast
    exact ⟨s, b, hs, rfl, hb, hschema⟩

end Layout

end Gridplan
