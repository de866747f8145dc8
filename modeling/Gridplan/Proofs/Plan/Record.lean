import Gridplan.Plan.Codec
import Gridplan.Proofs.Expr.Reading
import Gridplan.Proofs.Plan.Acceptance

namespace Gridplan

open Datum (ofTexts)

variable {op : Operator} {fs : List (String × Datum)} {ds : List Datum} {name : String}

theorem Expr.isFilled_filed {e : Expr} (h : e.isStorable = true) (hf : e.isFilled = true) :
    e.filed.isFilled = true := by
  cases e with
  | raw d => exact hf
  | _ =>
    obtain ⟨f, fs, hr⟩ := Expr.record_of_isProper h
    simp [Expr.filed, Expr.isFilled, hr, Datum.truthy]

def SortKey.toList (k : SortKey) : Datum := .list [.text k.column, .text k.direction.name]

def Aggregation.toList (a : Aggregation) : Datum :=
  .list [.text a.output, .text a.func, .text a.column]

namespace Operator

def isStorable : Operator → Bool
  | .select _ (some e) | .filter e | .sort _ _ (some e) | .withColumn _ e => e.isStorable
  | _ => true

def filed : Operator → Operator
  | .source id schema _ => .source id schema none
  | .select names e => .select names (e.map Expr.filed)
  | .filter e => .filter e.filed
  | .sort keys cap e => .sort keys cap (e.map Expr.filed)
  | .withColumn name e => .withColumn name e.filed
  | op => op

@[simp] theorem kind_filed (op : Operator) : op.filed.kind = op.kind := by cases op <;> rfl

theorem isTyped_filed (h : op.isTyped = true) (hs : op.isStorable = true) :
    op.filed.isTyped = true := by
  cases op with
  | select names e | sort _ _ e =>
    cases e with
    | none => rfl
    | some e =>
      have hn : e ≠ .raw .null := by rintro rfl; cases h
      have := Expr.record_ne_null hs hn
      simp only [filed, Option.map_some, Expr.filed]
      unfold isTyped
      split <;> simp_all
  | loose | bare => exact h
  | _ => rfl

theorem isStorable_filed (op : Operator) : op.filed.isStorable = true := by
  cases op with
  | select _ e | sort _ _ e => cases e <;> rfl
  | _ => rfl

def required : Operator → List (String × Datum)
  | .source id schema _ =>
    [("source_id", .text id), ("schema", Datum.ofOption (schema.map ofTexts))]
  | .select names _ => [("columns", ofTexts names)]
  | .filter e => [("predicate", e.record)]
  | .join leftOn rightOn kind suffixes =>
    [("left_on", ofTexts leftOn), ("right_on", ofTexts rightOn),
      ("join_type", .text kind.name),
      ("suffixes", .tuple [Datum.ofText? suffixes.1, Datum.ofText? suffixes.2])]
  | .groupBy keys aggs _ _ =>
    [("keys", ofTexts keys), ("aggregations", .list (aggs.map Aggregation.toList))]
  | .aggregate aggs => [("aggregations", .list (aggs.map Aggregation.toList))]
  | .sort keys _ _ => [("keys", .list (keys.map SortKey.toList))]
  | .limit count side => [("count", .int count), ("end", .text side.name)]
  | .withColumn name e => [("column", .text name), ("expression", e.record)]
  | .pivot index columns values aggfunc =>
    [("index", ofTexts index), ("columns", .text columns), ("values", .text values),
      ("aggfunc", Datum.ofText? aggfunc)]
  | .melt idVars valueVars varName valueName =>
    [("id_vars", ofTexts idVars),
      ("value_vars", Datum.ofOption (valueVars.map ofTexts)), ("var_name", .text varName),
      ("value_name", .text valueName)]
  | .window func input output partitionBy orderBy frame =>
    [("function", .text func), ("input_column", Datum.ofText? input),
      ("output_column", .text output), ("partition_by", ofTexts partitionBy),
      ("order_by", .list (orderBy.map SortKey.toList)), ("frame", frame)]
  | .union | .bare | .loose .. => []

/-- The parameters that stand behind the inputs in a record, and only when they are given. -/
def optional : Operator → List (String × Datum)
  | .select _ e => (e.map fun e ↦ ("predicate", e.record)).toList
  | .groupBy _ _ order cap =>
    (if order.isEmpty then [] else [("sort_keys", .list (order.map SortKey.toList))]) ++
      (cap.map fun n ↦ ("limit", Datum.int n)).toList
  | .sort _ cap e =>
    (cap.map fun n ↦ ("limit", Datum.int n)).toList ++
      (e.map fun e ↦ ("predicate", e.record)).toList
  | _ => []

def fields (op : Operator) (ds : List Datum) : List (String × Datum) :=
  ("type", .text op.kind.tag) :: (op.required ++
    (if op.kind.isUnary then ("input", ds.headD .null) else ("inputs", .list ds)) :: op.optional)

theorem fields_filed (op : Operator) (ds : List Datum) : op.filed.fields ds = op.fields ds := by
  cases op with
  | select _ e | sort _ _ e => cases e <;> rfl
  | _ => rfl

structure Files (op : Operator) (ds : List Datum) (fs : List (String × Datum)) : Prop where
  tag : fs.lookup "type" = some (.text op.kind.tag)
  inputs : Plan.inputRecords (.record fs) = .ok ds
  params : fs.filter (fun f ↦ !Plan.structural op.kind f.1) = op.required ++ op.optional
  depth : Datum.depthList ds ≤ Datum.depthFields fs

section Keywords

attribute [local simp] Operator.kind Kind.keywords Kind.defaults

theorem mem_keywords {f : String × Datum} (hf : f ∈ op.required ++ op.optional) :
    f.1 ∈ op.kind.keywords := by
  have hcap : ∀ cap : Option Int, f ∈ (cap.map fun n ↦ ("limit", Datum.int n)).toList →
      f.1 = "limit" := by
    rintro (_ | n) hf <;> simp_all
  have hcond : ∀ e : Option Expr, f ∈ (e.map fun e ↦ ("predicate", e.record)).toList →
      f.1 = "predicate" := by
    rintro (_ | e) hf <;> simp_all
  simp only [List.mem_append] at hf
  cases op with
  | select names e =>
    simp only [required, optional, List.mem_singleton] at hf
    rcases hf with rfl | hf
    · simp
    · simp [hcond e hf]
  | sort keys cap e =>
    simp only [required, optional, List.mem_append, List.mem_singleton] at hf
    rcases hf with rfl | hf | hf
    · simp
    · simp [hcap cap hf]
    · simp [hcond e hf]
  | groupBy keys aggs order cap =>
    simp only [required, optional, List.mem_append, List.mem_cons, List.not_mem_nil, or_false] at hf
    rcases hf with (rfl | rfl) | hf | hf
    · simp
    · simp
    · split at hf <;> simp at hf
      simp [hf]
    · simp [hcap cap hf]
  | _ =>
    simp only [required, optional, List.mem_cons, List.not_mem_nil, or_false] at hf
    try rcases hf with rfl | rfl | rfl | rfl | rfl | rfl
    all_goals simp

end Keywords

end Operator

namespace Plan

theorem storedLists_map {α : Type} {write store : α → Datum} {ps : Params} {xs : List α}
    (h : ps.get name = .raw (.list (xs.map write)))
    (hw : ∀ x, (do return Datum.list (← (write x).items) : Outcome Datum) = .ok (store x)) :
    storedLists ps name = .ok (name, .list (xs.map store)) := by
  have hitems : ps.items name = .ok (xs.map write) := by simp only [Params.items, h, Datum.items]
  have hm : xs.mapM ((fun t : Datum ↦ do return Datum.list (← t.items)) ∘ write) =
      .ok (xs.map store) := Outcome.mapM_ok fun x _ ↦ hw x
  rw [storedLists, hitems, Outcome.ok_bind, List.mapM_map, hm]
  rfl

theorem storedLists_sortKeys (ps : Params) (name : String) (keys : List SortKey)
    (h : ps.get name = .raw (.list (keys.map SortKey.toTuple))) :
    storedLists ps name = .ok (name, .list (keys.map SortKey.toList)) :=
  storedLists_map h fun _ ↦ rfl

theorem storedLists_aggregations (ps : Params) (name : String) (aggs : List Aggregation)
    (h : ps.get name = .raw (.list (aggs.map Aggregation.toTuple))) :
    storedLists ps name = .ok (name, .list (aggs.map Aggregation.toList)) :=
  storedLists_map h fun _ ↦ rfl

theorem storedIfGiven_int (ps : Params) (name : String) (cap : Option Int)
    (h : ps.get name = .raw (Datum.ofOption (cap.map .int))) :
    storedIfGiven ps name = .ok (cap.map fun n ↦ (name, Datum.int n)).toList := by
  cases cap <;> simp [storedIfGiven, storedParam, h, Datum.ofOption, Expr.isMissing, Expr.stored]

theorem storedIfGiven_expr (ps : Params) (name : String) (e : Option Expr)
    (h : ps.get name = e.getD (.raw .null)) (hn : e ≠ some (.raw .null)) :
    storedIfGiven ps name =
      if e.all Expr.isStorable then .ok (e.map fun c ↦ (name, c.record)).toList
      else .error .member := by
  cases e with
  | none => simp [storedIfGiven, h, Expr.isMissing]
  | some c =>
    have hm : c.isMissing = false := by
      unfold Expr.isMissing
      split
      · exact absurd rfl hn
      · rfl
    cases hs : c.isStorable <;>
      simp [storedIfGiven, storedParam, h, hm, Expr.stored_eq, hs]

section Fields

attribute [local simp] toDatum headToDatum listToDatum tagged Operator.kind Operator.fields
  Operator.required Operator.optional Operator.isStorable Kind.isUnary

theorem toDatum_node {m : Option Nat} {is : List Plan} (h : op.isTyped = true)
    (hlen : is.length = op.kind.arity) (hx : ∀ x, listToDatum is = .error x → x = .member) :
    toDatum (.node m op is) =
      if op.isStorable then (do return .record (op.fields (← listToDatum is)))
      else .error .member := by
  have hlist : (∃ ds, listToDatum is = .ok ds) ∨ listToDatum is = .error .member := by
    cases hl : listToDatum is with
    | ok ds => exact .inl ⟨ds, rfl⟩
    | error x => exact .inr (by rw [hx x hl])
  have hone : ∀ {p : Plan}, is = [p] → (∃ d, p.toDatum = .ok d) ∨ p.toDatum = .error .member := by
    rintro p rfl
    cases hp : p.toDatum with
    | ok d => exact .inl ⟨d, rfl⟩
    | error x => exact .inr (by rw [hx x (by simp [hp])])
  have hraw : ∀ d, (Expr.raw d).stored = .ok d := fun _ ↦ rfl
  cases op with try obtain ⟨p, rfl⟩ := List.length_eq_one_iff.mp hlen
  | loose => cases h
  | bare => cases h
  | source id schema data =>
    obtain rfl := List.length_eq_zero_iff.mp hlen
    rfl
  | join leftOn rightOn kind suffixes =>
    obtain ⟨ds, hds⟩ | hds := hlist <;>
      simp [Operator.params, storedParam, storedNames, Params.get, hds, List.lookup_cons, hraw,
        ofTexts]
  | union =>
    obtain ⟨ds, hds⟩ | hds := hlist <;>
      simp [hds]
  | select names e =>
    have he := storedIfGiven_expr (Operator.select names e).params "predicate" e rfl
      (by rintro rfl; cases h)
    have hn : storedParam (Operator.select names e).params "columns" =
        .ok ("columns", ofTexts names) := rfl
    have hs : (Operator.select names e).isStorable = e.all Expr.isStorable := by cases e <;> rfl
    rw [hs]
    obtain ⟨d, hd⟩ | hd := hone rfl <;> cases ha : e.all Expr.isStorable <;>
      simp [he, hn, ha, hd]
  | sort keys cap e =>
    have he := storedIfGiven_expr (Operator.sort keys cap e).params "predicate" e rfl
      (by rintro rfl; cases h)
    have hc := storedIfGiven_int (Operator.sort keys cap e).params "limit" cap rfl
    have hk := storedLists_sortKeys (Operator.sort keys cap e).params "keys" keys rfl
    have hs : (Operator.sort keys cap e).isStorable = e.all Expr.isStorable := by cases e <;> rfl
    rw [hs]
    obtain ⟨d, hd⟩ | hd := hone rfl <;> cases ha : e.all Expr.isStorable <;>
      simp [he, hc, hk, ha, hd]
  | groupBy keys aggs order cap =>
    have ha := storedLists_aggregations (Operator.groupBy keys aggs order cap).params
      "aggregations" aggs rfl
    have hc := storedIfGiven_int (Operator.groupBy keys aggs order cap).params "limit" cap rfl
    have hk : storedParam (Operator.groupBy keys aggs order cap).params "keys" =
        .ok ("keys", ofTexts keys) := rfl
    cases order with
    | nil =>
      have ht : ((Operator.groupBy keys aggs [] cap).params.get "sort_keys").truthy = false := rfl
      obtain ⟨d, hd⟩ | hd := hone rfl <;>
        simp [ha, hc, hk, ht, hd]
    | cons k ks =>
      have ht : ((Operator.groupBy keys aggs (k :: ks) cap).params.get "sort_keys").truthy = true :=
        rfl
      have ho := storedLists_sortKeys (Operator.groupBy keys aggs (k :: ks) cap).params "sort_keys"
        (k :: ks) rfl
      obtain ⟨d, hd⟩ | hd := hone rfl <;>
        simp [ha, hc, hk, ht, ho, hd]
  | aggregate aggs =>
    have ha := storedLists_aggregations (Operator.aggregate aggs).params "aggregations" aggs rfl
    obtain ⟨d, hd⟩ | hd := hone rfl <;>
      simp [ha, hd]
  | window func input output parts order frame =>
    have hk := storedLists_sortKeys (Operator.window func input output parts order frame).params
      "order_by" order rfl
    simp only [toDatum, Operator.kind, hk]
    obtain ⟨d, hd⟩ | hd := hone rfl <;>
      simp [Operator.params, storedParam, Params.get, hd, List.lookup_cons, hraw]
  | filter e | withColumn name e =>
    obtain ⟨d, hd⟩ | hd := hone rfl <;> cases he : e.isStorable <;>
      simp [Operator.params, storedParam, Params.get, hd, List.lookup_cons, Expr.stored_eq e, he,
        hraw]
  | _ =>
    obtain ⟨d, hd⟩ | hd := hone rfl <;>
      simp [Operator.params, storedParam, storedNames, Params.get, hd, List.lookup_cons, hraw,
        ofTexts]

end Fields

theorem not_structural {kind : Kind} (h : name ∈ kind.keywords) : structural kind name = false := by
  have hall : kind.keywords.all (fun n ↦ !structural kind n) = true := by cases kind <;> rfl
  simpa using List.all_eq_true.mp hall name h

end Plan

namespace Operator

theorem lookup_parameters (h : name ∉ op.kind.keywords) :
    (op.required ++ op.optional).lookup name = none := by
  rw [List.lookup_eq_none_iff]
  intro f hf
  simp only [bne_iff_ne]
  rintro rfl
  exact h (mem_keywords hf)

theorem lookup_inputs (op : Operator) (ds : List Datum) :
    if op.kind.isUnary then
      (op.fields ds).lookup "inputs" = none ∧ (op.fields ds).lookup "input" = some (ds.headD .null)
    else
      (op.fields ds).lookup "inputs" = some (.list ds) ∧ (op.fields ds).lookup "input" = none := by
  have hkeys : "input" ∉ op.kind.keywords ∧ "inputs" ∉ op.kind.keywords := by
    cases op.kind <;> decide
  have hreq : ∀ name, name ∉ op.kind.keywords →
      op.required.lookup name = none ∧ op.optional.lookup name = none := by
    intro name hn
    have := lookup_parameters hn
    rw [List.lookup_append] at this
    simpa using this
  obtain ⟨hinput, hinput'⟩ := hreq _ hkeys.1
  obtain ⟨hinputs, hinputs'⟩ := hreq _ hkeys.2
  cases hu : op.kind.isUnary <;>
    simp [fields, hu, List.lookup_append, List.lookup_cons, hinput, hinput', hinputs, hinputs']

end Operator

namespace Plan

theorem inputRecords_one {fs gs : List (String × Datum)} (hlist : fs.lookup "inputs" = none)
    (hone : fs.lookup "input" = some (.record gs)) :
    inputRecords (.record fs) = .ok [.record gs] := by
  simp [inputRecords, Datum.field?, hlist, hone, Datum.truthy, Datum.items]

theorem inputRecords_list (hlist : fs.lookup "inputs" = some (.list ds))
    (hone : fs.lookup "input" = none) : inputRecords (.record fs) = .ok ds := by
  simp [inputRecords, Datum.field?, hlist, hone, Datum.items]

end Plan

namespace Operator

theorem length_of_isUnary (hlen : ds.length = op.kind.arity) (hu : op.kind.isUnary = true) :
    ds.length = 1 := by
  rw [hlen]
  cases hk : op.kind <;> simp_all [Kind.isUnary, Kind.arity]

theorem files_fields (op : Operator) (hlen : ds.length = op.kind.arity)
    (hrec : ∀ d ∈ ds, ∃ fs, d = .record fs) : op.Files ds (op.fields ds) := by
  have hkeep : (op.required ++ op.optional).filter (fun f ↦ !Plan.structural op.kind f.1) =
      op.required ++ op.optional := by
    rw [List.filter_eq_self]
    intro f hf
    simp [Plan.not_structural (mem_keywords hf)]
  refine ⟨?_, ?_, ?_, ?_⟩
  · simp [fields]
  · have hlookup := op.lookup_inputs ds
    cases hu : op.kind.isUnary with
    | true =>
      obtain ⟨d, rfl⟩ := List.length_eq_one_iff.mp (length_of_isUnary hlen hu)
      obtain ⟨fs, rfl⟩ := hrec d (by simp)
      rw [hu, if_pos rfl] at hlookup
      exact Plan.inputRecords_one hlookup.1 hlookup.2
    | false =>
      rw [hu, if_neg Bool.false_ne_true] at hlookup
      exact Plan.inputRecords_list hlookup.1 hlookup.2
  · have hdrop : Plan.structural op.kind
        (if op.kind.isUnary then ("input", ds.headD .null)
          else ("inputs", Datum.list ds)).1 = true := by
      split <;> simp [Plan.structural]
    have htype : Plan.structural op.kind "type" = true := by simp [Plan.structural]
    rw [List.filter_append] at hkeep
    simp only [fields, List.filter_cons, List.filter_append, hdrop, htype, Bool.not_true,
      Bool.false_eq_true, if_false, hkeep]
  · have hmem : (if op.kind.isUnary then ("input", ds.headD .null) else ("inputs", Datum.list ds)) ∈
        op.fields ds := by simp [fields]
    have hle := Datum.depth_le_depthFields hmem
    cases hu : op.kind.isUnary with
    | true =>
      obtain ⟨d, rfl⟩ := List.length_eq_one_iff.mp (length_of_isUnary hlen hu)
      simpa [hu, Datum.depthList] using hle
    | false =>
      simp only [hu, Datum.depth, Bool.false_eq_true, if_false] at hle
      omega

end Operator

namespace Plan

theorem lookup_filter_ne {α : Type} {fs : List (String × α)} {name other : String}
    (h : name ≠ other) : (fs.filter (·.1 != other)).lookup name = fs.lookup name := by
  induction fs with
  | nil => rfl
  | cons f fs ih =>
    obtain ⟨k, v⟩ := f
    by_cases hk : k = other
    · subst hk
      have hb : (name == k) = false := by simpa using h
      simp [List.lookup_cons, ih, hb]
    · simp [List.lookup_cons, ih, hk]

theorem files_withInputs {ds news : List Datum} (hf : op.Files ds fs) (hne : news ≠ []) :
    op.Files news (fs.filter (·.1 != "inputs") ++ [("inputs", .list news)]) := by
  have hgone : (fs.filter (·.1 != "inputs")).lookup "inputs" = none := by
    rw [List.lookup_eq_none_iff]
    intro f hmem
    have hne := (List.mem_filter.mp hmem).2
    simp only [bne_iff_ne, ne_eq] at hne ⊢
    exact fun h ↦ hne h.symm
  have hinputs : (fs.filter (·.1 != "inputs") ++ [("inputs", Datum.list news)]).lookup "inputs" =
      some (.list news) := by
    simp [List.lookup_append, hgone]
  refine ⟨?_, ?_, ?_, ?_⟩
  · rw [List.lookup_append, lookup_filter_ne (by decide), hf.tag]
    rfl
  · have htruthy : (Datum.list news).truthy = true := by simp [Datum.truthy, hne]
    simp [inputRecords, Datum.field?, hinputs, htruthy, Datum.items]
  · have hlast : structural op.kind "inputs" = true := by simp [structural]
    rw [List.filter_append, List.filter_filter, ← hf.params]
    simp only [List.filter_cons, hlast, Bool.not_true, Bool.false_eq_true, if_false,
      List.filter_nil, List.append_nil]
    refine List.filter_congr fun f _ ↦ ?_
    by_cases hn : f.1 = "inputs"
    · simp [hn, hlast]
    · simp [hn]
  · have hmem : ("inputs", Datum.list news) ∈
        fs.filter (·.1 != "inputs") ++ [("inputs", .list news)] := by simp
    have hle := Datum.depth_le_depthFields hmem
    simp only [Datum.depth] at hle
    omega

end Plan

end Gridplan
