import Gridplan.Proofs.Plan.Record

namespace Gridplan

variable {op : Operator} {is : List Plan} {ps : Params}

namespace Operator

/-- The parameters of an operator when it has been stored and read back. -/
def reread : Operator → Params
  | .groupBy keys aggs order cap =>
    [("keys", .raw (Datum.ofTexts keys)),
      ("aggregations", .raw (.list (aggs.map Aggregation.toTuple))),
      ("sort_keys", .raw (if order.isEmpty then .null else .list (order.map SortKey.toList))),
      ("limit", .raw (Datum.ofOption (cap.map .int)))]
  | op => op.filed.params

theorem check_reread (h : op.isTyped = true) (hs : op.isStorable = true)
    (his : ∀ q ∈ is, q.op.isTyped = true) :
    Plan.check op.kind op.reread is = .ok ps ↔ op.filed.Accepts is ∧ op.reread = ps := by
  have hf := isTyped_filed h hs
  cases op with
  | groupBy keys aggs order cap =>
    by_cases hlen : is.length = 1
    · obtain ⟨p, rfl⟩ := List.length_eq_one_iff.mp hlen
      simp only [Operator.kind, reread]
      rw [Plan.check_groupBy]
      · simp [filed, Accepts, Expr.truthy, Datum.truthy_list_map]
      · cases order with
        | nil => simp [Expr.truthy, Datum.truthy]
        | cons k ks => exact fun _ ↦ ⟨_, Plan.checkDirections_pairs false (k :: ks) fun _ ↦ rfl⟩
    · exact ⟨fun hc ↦ absurd (Plan.length_of_check (by simp [Operator.kind]) hc) hlen,
        fun hc ↦ absurd hc.1.length hlen⟩
  | loose => cases h
  | bare => cases h
  | _ => exact Plan.check_params hf his

theorem mapM_read {α β : Type} {write : α → β} {read : β → Option α} (xs : List α)
    (h : ∀ x, read (write x) = some x) : (xs.map write).mapM read = some xs := by
  induction xs with
  | nil => rfl
  | cons x xs ih => simp [h, ih]

@[simp] theorem texts?_ofTexts (names : List String) : (Datum.ofTexts names).texts? = some names :=
  mapM_read names fun _ ↦ rfl

theorem ofDatum?_pair {write : SortKey → Datum} (k : SortKey)
    (h : (write k).sequence? = some [.text k.column, .text k.direction.name]) :
    SortKey.ofDatum? (write k) = some k := by
  obtain ⟨c, d⟩ := k
  cases d <;> simp [SortKey.ofDatum?, h, Direction.name, Direction.ofName?]

@[simp] theorem listOf?_toTuple (keys : List SortKey) :
    SortKey.listOf? (.list (keys.map SortKey.toTuple)) = some keys :=
  mapM_read keys fun k ↦ ofDatum?_pair k rfl

@[simp] theorem listOf?_toList (keys : List SortKey) :
    SortKey.listOf? (.list (keys.map SortKey.toList)) = some keys :=
  mapM_read keys fun k ↦ ofDatum?_pair k rfl

@[simp] theorem listOf?_aggregations (aggs : List Aggregation) :
    Aggregation.listOf? (.list (aggs.map Aggregation.toTuple)) = some aggs :=
  mapM_read aggs fun _ ↦ rfl

theorem option?_eq {α : Type} (read : Datum → Option α) {write : α → Datum} (ps : Params)
    (name : String) (o : Option α) (h : ps.get name = .raw (Datum.ofOption (o.map write)))
    (hr : ∀ x, read (write x) = some x) (hn : ∀ x, write x ≠ .null) :
    ps.option? read name = some o := by
  cases o with
  | none => simp [Params.option?, Params.data?, h, Datum.ofOption]
  | some x =>
    simp only [Params.option?, Params.data?, h, Datum.ofOption, Option.map_some]
    split
    · rename_i hd
      exact absurd (Option.some.inj hd) (hn x)
    · rename_i d _ hd
      simp [← Option.some.inj hd, hr]
    · rename_i hd
      cases hd

theorem option?_ofText? (ps : Params) (name : String) (o : Option String)
    (h : ps.get name = .raw (Datum.ofText? o)) : ps.option? Datum.text? name = some o := by
  cases o <;> simp [Params.option?, Params.data?, h, Datum.ofText?, Datum.text?]

theorem expr?_filed (ps : Params) (name : String) (e : Option Expr)
    (h : ps.get name = (e.map Expr.filed).getD (.raw .null))
    (hs : e.all Expr.isStorable = true) (hn : e ≠ some (.raw .null)) :
    ps.expr? name = e.map Expr.filed := by
  cases e with
  | none => simp [Params.expr?, h]
  | some c =>
    have hc : c.record ≠ .null :=
      Expr.record_ne_null (by simpa using hs) fun hc ↦ hn (congrArg some hc)
    simp only [Params.expr?, h, Option.map_some, Option.getD_some, Expr.filed]
    split
    · rename_i hd
      exact absurd (Expr.raw.inj hd) hc
    · rfl

section Reading

attribute [local simp] reread filed params Params.texts? Params.text? Params.data? Params.get
  List.lookup_cons Datum.text?

theorem ofParams_reread (h : op.isTyped = true) (hs : op.isStorable = true) :
    Plan.withData none (ofParams op.kind op.reread) = op.filed := by
  suffices hsome : ofParams? op.kind op.reread = some op.filed by
    rw [ofParams, hsome]
    cases op <;> rfl
  cases op with
  | loose => cases h
  | bare => cases h
  | source id schema data =>
    have hschema := option?_eq Datum.texts? (Operator.source id schema data).reread "schema" schema
      rfl texts?_ofTexts (by simp [Datum.ofTexts])
    simp only [ofParams?, Operator.kind, hschema]
    simp
  | select names e =>
    have he := expr?_filed (Operator.select names e).reread "predicate" e rfl
      (by cases e <;> simp_all [isStorable]) (by rintro rfl; cases h)
    simp only [ofParams?, Operator.kind, he]
    simp
  | filter e => rfl
  | union => rfl
  | join leftOn rightOn kind suffixes =>
    have hk : JoinKind.ofName? kind.name = some kind := by cases kind <;> rfl
    obtain ⟨a, b⟩ := suffixes
    cases a <;> cases b <;>
      simp [ofParams?, Operator.kind, hk, Datum.ofText?]
  | groupBy keys aggs order cap =>
    have hc := option?_eq Datum.int? (Operator.groupBy keys aggs order cap).reread "limit" cap rfl
      (fun _ ↦ rfl) (by simp)
    have ho : (Operator.groupBy keys aggs order cap).reread.option? SortKey.listOf? "sort_keys" =
        some (if order.isEmpty then none else some order) := by
      cases order with
      | nil => rfl
      | cons k ks =>
        have hl := listOf?_toList (k :: ks)
        simp [Params.option?] at hl ⊢
        exact hl
    simp only [ofParams?, Operator.kind, hc, ho]
    cases order <;> simp
  | aggregate aggs =>
    simp [ofParams?, Operator.kind]
  | sort keys cap e =>
    have hc := option?_eq Datum.int? (Operator.sort keys cap e).reread "limit" cap rfl
      (fun _ ↦ rfl) (by simp)
    simp only [ofParams?, Operator.kind, hc]
    have he := expr?_filed (Operator.sort keys cap e).reread "predicate" e rfl
      (by cases e <;> simp_all [isStorable]) (by rintro rfl; cases h)
    simp only [he]
    simp
  | limit count side =>
    have hk : Side.ofName? side.name = some side := by cases side <;> rfl
    simp [ofParams?, Operator.kind, Datum.int?, hk]
  | withColumn name e => rfl
  | pivot index columns values f =>
    have hf := option?_ofText? (Operator.pivot index columns values f).reread "aggfunc" f rfl
    simp only [ofParams?, Operator.kind, hf]
    simp
  | melt idVars valueVars varName valueName =>
    have hv := option?_eq Datum.texts? (Operator.melt idVars valueVars varName valueName).reread
      "value_vars" valueVars rfl texts?_ofTexts (by simp [Datum.ofTexts])
    simp only [ofParams?, Operator.kind, hv]
    simp
  | window func input output parts order frame =>
    have hi := option?_ofText? (Operator.window func input output parts order frame).reread
      "input_column" input rfl
    simp only [ofParams?, Operator.kind, hi]
    simp

end Reading

end Operator

namespace Plan

variable {fs : List (String × Datum)} {kind : Kind} {ds : List Datum} {q : Plan}

theorem tuples_map {α : Type} {write store : α → Datum} (xs : List α)
    (hw : ∀ x, (do return Datum.tuple (← (store x).items) : Outcome Datum) = .ok (write x)) :
    tuples (.list (xs.map store)) = .ok (.list (xs.map write)) := by
  have hm : xs.mapM ((fun t : Datum ↦ do return Datum.tuple (← t.items)) ∘ store) =
      .ok (xs.map write) := Outcome.mapM_ok fun x _ ↦ hw x
  rw [tuples, Datum.items, Outcome.ok_bind, List.mapM_map, hm]
  rfl

@[simp] theorem tuples_sortKeys (keys : List SortKey) :
    tuples (.list (keys.map SortKey.toList)) = .ok (.list (keys.map SortKey.toTuple)) :=
  tuples_map keys fun _ ↦ rfl

@[simp] theorem tuples_aggregations (aggs : List Aggregation) :
    tuples (.list (aggs.map Aggregation.toList)) = .ok (.list (aggs.map Aggregation.toTuple)) :=
  tuples_map aggs fun _ ↦ rfl

def restore (kind : Kind) (f : String × Datum) : Outcome (String × Expr) := do
  return (f.1, Expr.raw (← restored kind f.1 f.2))

section Restoring

attribute [local simp] restore restored Operator.kind Operator.required Operator.optional

theorem restore_document (h : op.isTyped = true) :
    ∃ ps, (op.required ++ op.optional).mapM (restore op.kind) = .ok ps ∧
      Params.complete op.kind ps = op.reread := by
  cases op with
  | loose => cases h
  | bare => cases h
  | select names e => cases e <;> simp <;> rfl
  | sort keys cap e => cases e <;> cases cap <;> simp <;> rfl
  | groupBy keys aggs order cap => cases order <;> cases cap <;> simp <;> rfl
  | _ =>
    simp [Datum.items]
    rfl

end Restoring

theorem restore_names (h : fs.mapM (restore kind) = .ok ps) : ps.map (·.1) = fs.map (·.1) := by
  induction fs generalizing ps with
  | nil =>
    cases h
    rfl
  | cons f fs ih =>
    obtain ⟨p, qs, hp, hqs, rfl⟩ := Outcome.mapM_cons_eq_ok.mp h
    obtain ⟨d, -, hd⟩ := Outcome.bind_eq_ok.mp hp
    cases hd
    simp [ih hqs]

theorem build_restored (h : op.isTyped = true) (hs : op.isStorable = true)
    (his : ∀ q ∈ is, q.op.isTyped = true)
    (hps : (op.required ++ op.optional).mapM (restore op.kind) = .ok ps)
    (hc : Params.complete op.kind ps = op.reread) :
    build op.kind { params := ps, inputs := is } = .ok q ↔
      op.filed.Accepts is ∧ q = fresh op.filed is := by
  have hacc : accepts op.kind { params := ps, inputs := is } = true := by
    have hkey : ps.all (fun p ↦ op.kind.keywords.contains p.1) = true := by
      rw [List.all_eq_true]
      intro p hp
      obtain ⟨f, hf, he⟩ : ∃ f ∈ op.required ++ op.optional, f.1 = p.1 := by
        have := List.mem_map_of_mem (f := (·.1)) hp
        rw [restore_names hps] at this
        exact List.mem_map.mp this
      rw [← he]
      simpa using Operator.mem_keywords hf
    simp only [accepts, hkey]
    rfl
  have hin : resolveInputs op.kind { params := ps, inputs := is } = is := by
    cases is <;> simp [resolveInputs]
  simp only [build, hacc, hin, hc, Bool.not_true]
  simp only [Bool.false_eq_true, if_false, Outcome.bind_eq_ok, Outcome.pure_eq, Except.ok.injEq,
    Operator.check_reread h hs his]
  constructor
  · rintro ⟨qs, ⟨ha, rfl⟩, rfl⟩
    exact ⟨ha, by rw [Operator.ofParams_reread h hs]⟩
  · rintro ⟨ha, rfl⟩
    exact ⟨_, ⟨ha, rfl⟩, by rw [Operator.ofParams_reread h hs]⟩

theorem ofTag?_tag (h : kind ≠ .bare) : Kind.ofTag? kind.tag = some kind := by
  cases kind <;> first | rfl | exact absurd rfl h

theorem kindOf_eq (h : kind ≠ .bare) (hf : fs.lookup "type" = some (.text kind.tag)) :
    kindOf (.record fs) = .ok kind := by
  have hne : kind.tag ≠ "" := by cases kind <;> decide
  simp [kindOf, Datum.field?, hf, hne, ofTag?_tag h]

theorem decode_of_restored {n : Nat} (h : op.isTyped = true) (hs : op.isStorable = true)
    (htag : fs.lookup "type" = some (.text op.kind.tag)) (hin : inputRecords (.record fs) = .ok ds)
    (hps : (fs.filter fun f ↦ !structural op.kind f.1).mapM (restore op.kind) =
      (op.required ++ op.optional).mapM (restore op.kind)) (hds : ds.mapM (decode n) = .ok is)
    (his : ∀ q ∈ is, q.op.isTyped = true) :
    decode (n + 1) (.record fs) = .ok q ↔ op.filed.Accepts is ∧ q = fresh op.filed is := by
  obtain ⟨ps, hgiven, hc⟩ := restore_document h
  simp only [decode, kindOf_eq (Operator.kind_ne_bare h) htag, hin, Outcome.ok_bind, hds]
  change List.mapM (restore op.kind) _ >>= _ = _ ↔ _
  rw [hps, hgiven, Outcome.ok_bind]
  exact build_restored h hs his hgiven hc

theorem decode_of_files {n : Nat} (h : op.isTyped = true) (hs : op.isStorable = true)
    (hf : op.Files ds fs) (hds : ds.mapM (decode n) = .ok is)
    (his : ∀ q ∈ is, q.op.isTyped = true) :
    decode (n + 1) (.record fs) = .ok q ↔ op.filed.Accepts is ∧ q = fresh op.filed is :=
  decode_of_restored h hs hf.tag hf.inputs (by rw [hf.params]) hds his

end Plan

end Gridplan
