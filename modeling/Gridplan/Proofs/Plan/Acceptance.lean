import Gridplan.Plan.Build
import Gridplan.Proofs.Outcome

namespace Gridplan

open Outcome (ok_bind)

variable {is : List Plan} {op : Operator} {names : List String}

namespace Datum

theorem contains_ofTexts (s : List String) (n : String) :
    (ofTexts s).contains (.text n) = .ok (s.contains n) := by
  simp only [contains, ofTexts, items, ok_bind, Outcome.pure_eq, isIn, List.any_map,
    Except.ok.injEq]
  rw [← List.any_beq']
  congr 1

theorem same_ofTexts {s t : List String} : (ofTexts s).same (ofTexts t) = true ↔ s = t := by
  simp only [ofTexts, same]
  induction s generalizing t with
  | nil => cases t <;> simp [sameList]
  | cons x xs ih => cases t <;> simp [sameList, same, ih]

theorem truthy_list_map {α : Type} {f : α → Datum} {xs : List α} :
    (Datum.list (xs.map f)).truthy = true ↔ xs ≠ [] := by
  cases xs <;> simp [truthy]

theorem compareBy_lt_zero (n : Int) : compareBy .lt (.int n) (.int 0) = .ok (decide (n < 0)) := by
  simp only [compareBy, order, number?, Number.compare?, ok_bind, Outcome.pure_eq,
    Except.ok.injEq]
  rcases lt_trichotomy n 0 with hn | rfl | hn
  · simp [compare_lt_iff_lt.mpr hn, Comparison.holds, hn]
  · rfl
  · simp [compare_gt_iff_gt.mpr hn, Comparison.holds, hn.le]

end Datum

def Operator.isTyped : Operator → Bool
  | .select _ (some (.raw .null)) | .sort _ _ (some (.raw .null)) => false
  | .bare | .loose .. => false
  | _ => true

theorem Operator.kind_ne_bare (h : op.isTyped = true) : op.kind ≠ .bare := by
  cases op with
  | loose => cases h
  | bare => cases h
  | _ => simp [Operator.kind]

def Expr.isFilled : Expr → Bool
  | .raw d => d.truthy || d.same (.int 0)
  | _ => true

def Kind.arity : Kind → Nat
  | .source | .bare => 0
  | .join | .union => 2
  | _ => 1

namespace Plan

def schema? : Plan → Option (List String)
  | .node _ (.source _ schema _) _ => schema
  | _ => none

/-- Whether a plan has these columns as far as it states a schema. -/
def Offers (p : Plan) (names : List String) : Prop :=
  ∀ schema, p.schema? = some schema → ∀ n ∈ names, n ∈ schema

theorem offers_nil (p : Plan) : p.Offers [] := by simp [Offers]

end Plan

/-- What a node with typed parameters has to meet. -/
def Operator.Accepts : Operator → List Plan → Prop
  | .source .., is => is = []
  | .select names _, [p] => names ≠ [] ∧ p.Offers names
  | .filter e, [p] => e.isFilled = true ∧ p.Offers e.columns
  | .join leftOn rightOn _ _, [p, q] =>
    leftOn ≠ [] ∧ rightOn ≠ [] ∧ p.Offers leftOn ∧ q.Offers rightOn
  | .groupBy _ aggs _ _, [_] => aggs ≠ []
  | .aggregate aggs, [_] => aggs ≠ []
  | .sort keys cap _, [p] => keys ≠ [] ∧ (∀ n ∈ cap, 0 ≤ n) ∧ p.Offers (keys.map (·.column))
  | .limit count _, [_] => 0 ≤ count
  | .withColumn name e, [p] => name ≠ "" ∧ e.isFilled = true ∧ p.Offers e.columns
  | .union, [p, q] => ∀ s t, p.schema? = some s → q.schema? = some t → s = t
  | .pivot index columns values _, [_] => index ≠ [] ∧ columns ≠ "" ∧ values ≠ ""
  | .melt idVars _ _ _, [_] => idVars ≠ []
  | .window func _ output _ _ _, [_] => func ≠ "" ∧ output ≠ ""
  | _, _ => False

theorem Operator.Accepts.length (h : op.Accepts is) : is.length = op.kind.arity := by
  unfold Operator.Accepts at h
  split at h <;> simp_all [Operator.kind, Kind.arity]

theorem Plan.Offers.congr {p q : Plan} (h : p.Offers names) (hs : q.schema? = p.schema?) :
    q.Offers names := by
  simpa only [Plan.Offers, hs] using h

theorem Operator.Accepts.congr {is js : List Plan} (h : op.Accepts is)
    (hs : List.Forall₂ (fun p q ↦ q.schema? = p.schema?) is js) : op.Accepts js := by
  have hlen := h.length
  cases op with
  | loose | bare => exact h.elim
  | source =>
    obtain rfl : is = [] := h
    cases hs
    rfl
  | join =>
    obtain ⟨p, q, rfl⟩ := List.length_eq_two.mp hlen
    rcases hs with _ | ⟨hp, _ | ⟨hq, ⟨⟩⟩⟩
    exact ⟨h.1, h.2.1, h.2.2.1.congr hp, h.2.2.2.congr hq⟩
  | union =>
    obtain ⟨p, q, rfl⟩ := List.length_eq_two.mp hlen
    rcases hs with _ | ⟨hp, _ | ⟨hq, ⟨⟩⟩⟩
    exact fun s t hs ht ↦ h s t (hp ▸ hs) (hq ▸ ht)
  | select | filter =>
    obtain ⟨p, rfl⟩ := List.length_eq_one_iff.mp hlen
    rcases hs with _ | ⟨hp, ⟨⟩⟩
    exact ⟨h.1, h.2.congr hp⟩
  | sort | withColumn =>
    obtain ⟨p, rfl⟩ := List.length_eq_one_iff.mp hlen
    rcases hs with _ | ⟨hp, ⟨⟩⟩
    exact ⟨h.1, h.2.1, h.2.2.congr hp⟩
  | _ =>
    obtain ⟨p, rfl⟩ := List.length_eq_one_iff.mp hlen
    rcases hs with _ | ⟨-, ⟨⟩⟩
    exact h

namespace Plan

variable {refusal : PlanRefusal} {p : Plan} {subject : String} {e : Expr} {kind : Kind}
variable {ps : Params}

theorem statedSchema_eq (h : p.op.isTyped = true) :
    p.statedSchema = p.schema?.map Datum.ofTexts := by
  obtain ⟨m, op, is⟩ := p
  cases op with
  | source id schema data =>
    cases schema <;> simp [statedSchema, schema?, kind, Plan.op, Operator.kind, Operator.params,
      Params.get, List.lookup_cons, Datum.ofOption, Datum.ofTexts]
  | loose k ps => simp [Plan.op, Operator.isTyped] at h
  | _ => simp [statedSchema, schema?, kind, Plan.op, Operator.kind]

theorem guard_eq_ok {α : Type} {x : Outcome Unit} {y : Outcome α} {a : α} :
    (x >>= fun _ ↦ y) = .ok a ↔ x = .ok () ∧ y = .ok a := by
  cases x <;> simp

theorem checkInputs_eq_ok :
    checkInputs kind is = .ok () ↔ is.length = if kind.isBinary then 2 else 1 := by
  simp only [checkInputs]
  split <;> simp_all

theorem checkFilled_eq_ok : checkFilled refusal e = .ok () ↔ e.truthy = true := by
  simp only [checkFilled]
  split <;> simp_all

theorem checkGiven_eq_ok : checkGiven refusal e = .ok () ↔ e.isFilled = true := by
  cases e with
  | raw d =>
    simp only [checkGiven, Expr.isFilled]
    split <;> simp_all
  | _ => simp [checkGiven, Expr.isFilled]

theorem checkCount_eq_ok {n : Int} : checkCount refusal (.raw (.int n)) = .ok () ↔ 0 ≤ n := by
  simp only [checkCount, Datum.compareBy_lt_zero, ok_bind, decide_eq_true_eq]
  split <;> simp <;> omega

theorem checkNames_eq_ok (h : p.op.isTyped = true) :
    checkNames subject (some p) (.ok (names.map .text)) = .ok () ↔ p.Offers names := by
  simp only [checkNames, Option.bind_some, statedSchema_eq h, Offers]
  cases hs : p.schema? with
  | none => simp
  | some schema =>
    have hin : ∀ n, (Datum.text n).isIn (schema.map .text) = schema.contains n := fun n ↦
      Except.ok.inj (Datum.contains_ofTexts schema n)
    have hmissing : (names.map Datum.text).filterM
        (fun n ↦ do return !(← (Datum.ofTexts schema).contains n)) =
        .ok ((names.map Datum.text).filter fun d ↦ !d.isIn (schema.map .text)) := by
      refine Outcome.filterM_ok fun d hd ↦ ?_
      obtain ⟨n, -, rfl⟩ := List.mem_map.mp hd
      rfl
    have hitems : (Datum.ofTexts schema).items = .ok (schema.map .text) := rfl
    simp only [Option.map_some, ok_bind, hmissing, hitems]
    split <;> rename_i he <;>
      simpa [List.isEmpty_iff, List.filter_eq_nil_iff, hin] using he

theorem checkExpr_eq_ok (h : p.op.isTyped = true) :
    checkExpr subject (some p) e = .ok () ↔ p.Offers e.columns := by
  simp only [checkExpr]
  split
  · rename_i he
    simp [List.isEmpty_iff.mp he, offers_nil]
  · exact checkNames_eq_ok h

theorem checkDirections_pairs (window : Bool) {write : SortKey → Datum} (keys : List SortKey)
    (h : ∀ k, (write k).items = .ok [.text k.column, .text k.direction.name]) :
    checkDirections window (.ok (keys.map write)) = .ok ((keys.map (·.column)).map .text) := by
  simp only [checkDirections, ok_bind, List.mapM_map, List.map_map]
  refine Outcome.mapM_ok fun k _ ↦ ?_
  obtain ⟨c, d⟩ := k
  cases d <;> simp [Datum.pair, h, Direction.name, Datum.same]

theorem checkDirections_toTuple (window : Bool) (keys : List SortKey) :
    checkDirections window (.ok (keys.map SortKey.toTuple)) =
      .ok ((keys.map (·.column)).map .text) :=
  checkDirections_pairs window keys fun _ ↦ rfl

theorem length_of_check {ps qs : Params} (hk : kind ≠ .bare) (h : check kind ps is = .ok qs) :
    is.length = kind.arity := by
  cases kind with
  | bare => exact absurd rfl hk
  | source =>
    simp only [check] at h
    split at h
    · rename_i hi
      simp [List.isEmpty_iff.mp hi, Kind.arity]
    · cases h
  | _ => exact checkInputs_eq_ok.mp (guard_eq_ok.mp h).1

theorem check_groupBy {keys aggs order cap : Expr} (h : order.truthy = true → ∃ names,
      checkDirections false (Params.items [("sort_keys", order)] "sort_keys") = .ok names) :
    check .groupBy [("keys", keys), ("aggregations", aggs), ("sort_keys", order), ("limit", cap)]
        [p] = .ok ps ↔
      aggs.truthy = true ∧
        [("keys", keys), ("aggregations", aggs), ("sort_keys", order), ("limit", cap)] = ps := by
  simp only [check, guard_eq_ok, checkInputs_eq_ok, checkFilled_eq_ok, Params.get, Params.items,
    List.lookup_cons, String.reduceBEq, Option.getD_some]
  by_cases ho : order.truthy = true
  · obtain ⟨names, hn⟩ := h ho
    simp only [Params.items, Params.get, List.lookup_cons, BEq.rfl, Option.getD_some] at hn
    simp [ho, hn, Kind.isBinary]
  · simp [ho, Kind.isBinary]

section Checking

attribute [local simp] check guard_eq_ok Operator.kind Operator.params Operator.Accepts
  Kind.isBinary
  Params.get Params.set Params.items Params.text? Params.data? List.lookup_cons

/-- A node with typed parameters over inputs with typed parameters passes the check exactly when it
is accepted, and its parameters stay as they are. -/
theorem check_params (h : op.isTyped = true) (his : ∀ q ∈ is, q.op.isTyped = true) :
    check op.kind op.params is = .ok ps ↔ op.Accepts is ∧ op.params = ps := by
  have hbare := Operator.kind_ne_bare h
  by_cases hlen : is.length = op.kind.arity
  swap
  · exact ⟨fun hc ↦ absurd (length_of_check hbare hc) hlen, fun hc ↦ absurd hc.1.length hlen⟩
  have hnames : ∀ {subject : String} {p : Plan} {names : List String}, p ∈ is →
      (checkNames subject (some p) (.ok (names.map .text)) = .ok () ↔ p.Offers names) :=
    fun hp ↦ checkNames_eq_ok (his _ hp)
  have hexpr : ∀ {subject : String} {p : Plan} {e : Expr}, p ∈ is →
      (checkExpr subject (some p) e = .ok () ↔ p.Offers e.columns) :=
    fun hp ↦ checkExpr_eq_ok (his _ hp)
  have hlist : ∀ names : List String, asList (.raw (.list (names.map Datum.text))) =
      .raw (.list (names.map .text)) := fun _ ↦ rfl
  cases op with try obtain ⟨p, rfl⟩ := List.length_eq_one_iff.mp hlen
  | loose => cases h
  | bare => cases h
  | source id schema data =>
    obtain rfl := List.length_eq_zero_iff.mp hlen
    simp
  | union =>
    obtain ⟨p, q, rfl⟩ := List.length_eq_two.mp hlen
    have hp := statedSchema_eq (his p (by simp))
    have hq := statedSchema_eq (his q (by simp))
    simp only [check, Operator.kind, Operator.params, Operator.Accepts, guard_eq_ok,
      checkInputs_eq_ok, Kind.isBinary, List.map_cons, List.map_nil, hp, hq, List.length_cons,
      List.length_nil]
    cases p.schema? <;> cases q.schema? <;> simp [Datum.same_ofTexts]
    split <;> simp_all [Datum.ofTexts, Datum.items]
  | join leftOn rightOn kind suffixes =>
    obtain ⟨p, q, rfl⟩ := List.length_eq_two.mp hlen
    have hk : JoinKind.ofName? kind.name = some kind := by cases kind <;> rfl
    simp [Datum.items, Datum.ofTexts, hlist, Expr.truthy, Datum.truthy_list_map, checkFilled_eq_ok,
      checkScalar, hnames, Datum.text?, hk, checkInputs, and_assoc]
  | groupBy keys aggs order cap =>
    simp only [Operator.kind, Operator.params]
    rw [check_groupBy]
    · simp [Expr.truthy, Datum.truthy_list_map]
    · cases order with
      | nil => simp [Expr.truthy, Datum.truthy]
      | cons k ks => exact fun _ ↦ ⟨_, checkDirections_toTuple false (k :: ks)⟩
  | sort keys cap e =>
    simp only [check, guard_eq_ok, Operator.kind, Operator.params, Params.get, List.lookup_cons,
      String.reduceBEq, Operator.Accepts, checkInputs_eq_ok, Kind.isBinary, checkFilled_eq_ok,
      Outcome.pure_eq, Option.getD_some, List.head?_cons, Params.items, Expr.truthy, Datum.items,
      Datum.truthy_list_map, checkDirections_toTuple, ok_bind]
    cases cap with
    | none =>
      simp [Datum.ofOption, Expr.isMissing, hnames, and_assoc, -List.map_map]
    | some n =>
      simp [Datum.ofOption, Expr.isMissing, hnames, checkCount_eq_ok, and_assoc, -List.map_map]
  | limit count side =>
    have hs : Side.ofName? side.name = some side := by cases side <;> rfl
    simp [checkInputs, checkCount_eq_ok, Datum.text?, hs]
  | _ =>
    simp [checkInputs, checkFilled_eq_ok, checkGiven_eq_ok, Expr.truthy, Datum.truthy, Datum.ofTexts,
      hlist, Datum.items, checkDirections_toTuple, hnames, hexpr, and_assoc]

end Checking

theorem make_eq_ok (h : op.isTyped = true) (his : ∀ q ∈ is, q.op.isTyped = true) :
    make op is = .ok p ↔ op.Accepts is ∧ p = fresh op is := by
  simp only [make, Outcome.bind_eq_ok, check_params h his, Outcome.pure_eq, Except.ok.injEq]
  constructor
  · rintro ⟨ps, ⟨ha, -⟩, rfl⟩
    exact ⟨ha, rfl⟩
  · rintro ⟨ha, rfl⟩
    exact ⟨_, ⟨ha, rfl⟩, rfl⟩

end Plan

end Gridplan
