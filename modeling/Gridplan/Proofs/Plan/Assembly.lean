import Gridplan.Plan.Document
import Gridplan.Proofs.Plan.Storing

namespace Gridplan

variable {d : Datum} {names : List String} {aggs : List Aggregation} {keys : List SortKey}

theorem Datum.truthy_list_read {α : Type} {read : Datum → Option α} {ds : List Datum} {xs : List α}
    (h : ds.mapM read = some xs) : (Datum.list ds).truthy = true ↔ xs ≠ [] := by
  have hlen := (mapM_eq_some_forall₂ h).length_eq
  cases ds <;> cases xs <;> simp_all [Datum.truthy]

theorem Datum.text?_eq_some {s : String} (h : d.text? = some s) : d = .text s := by
  cases d with
  | text t =>
    obtain rfl := Option.some.inj h
    rfl
  | _ => cases h

theorem Datum.int?_eq_some {n : Int} (h : d.int? = some n) : d = .int n := by
  cases d with
  | int m =>
    obtain rfl := Option.some.inj h
    rfl
  | _ => cases h

theorem Datum.texts?_eq_some (h : d.texts? = some names) : d = ofTexts names := by
  cases d with
  | list xs =>
    have hxs : List.Forall₂ (fun x n ↦ x = Datum.text n) xs names :=
      (mapM_eq_some_forall₂ h).imp fun _ _ ↦ text?_eq_some
    have heq : List.Forall₂ Eq xs (names.map .text) := List.forall₂_map_right_iff.mpr hxs
    rw [List.forall₂_eq_eq_eq] at heq
    rw [heq, ofTexts]
  | _ => cases h

theorem Aggregation.listOf?_eq_some (h : listOf? d = some aggs) :
    ∃ ds, d = .list ds ∧ ds.mapM ofDatum? = some aggs := by
  cases d with
  | list ds => exact ⟨ds, rfl, h⟩
  | _ => cases h

theorem SortKey.listOf?_eq_some (h : listOf? d = some keys) :
    ∃ ds, d = .list ds ∧ ds.mapM ofDatum? = some keys := by
  cases d with
  | list ds => exact ⟨ds, rfl, h⟩
  | _ => cases h

theorem SortKey.pair_of_ofDatum? {k : SortKey} (h : ofDatum? d = some k) :
    d.pair = .ok (.text k.column, .text k.direction.name) := by
  unfold ofDatum? at h
  split at h
  · rename_i c dir hd
    obtain ⟨direction, hdir, rfl⟩ := Option.map_eq_some_iff.mp h
    have hname : dir = direction.name := by
      unfold Direction.ofName? at hdir
      split at hdir <;> simp_all [Direction.name]
      all_goals subst hdir; rfl
    subst hname
    cases d <;> simp_all [Datum.sequence?, Datum.pair, Datum.items]
  · cases h

namespace Params

variable {ps : Params} {name : String}

theorem data?_eq_some (h : ps.data? name = some d) : ps.get name = .raw d := by
  unfold data? at h
  split at h
  · obtain rfl := Option.some.inj h
    assumption
  · cases h

theorem text?_eq_some {s : String} (h : ps.text? name = some s) : ps.get name = .raw (.text s) := by
  obtain ⟨d, hd, hs⟩ := Option.bind_eq_some_iff.mp h
  rw [data?_eq_some hd, Datum.text?_eq_some hs]

theorem texts?_eq_some (h : ps.texts? name = some names) :
    ps.get name = .raw (Datum.ofTexts names) := by
  obtain ⟨d, hd, hs⟩ := Option.bind_eq_some_iff.mp h
  rw [data?_eq_some hd, Datum.texts?_eq_some hs]

theorem option?_eq_some {α : Type} {read : Datum → Option α} {x : α}
    (h : ps.option? read name = some (some x)) : ∃ d, ps.data? name = some d ∧ read d = some x := by
  unfold option? at h
  split at h
  · cases h
  · rename_i d _ hd
    obtain ⟨y, hy, hxy⟩ := Option.map_eq_some_iff.mp h
    exact ⟨d, hd, by rw [hy, hxy]⟩
  · cases h

theorem items_of_get (h : ps.get name = .raw d) : ps.items name = d.items := by
  simp only [items, h]

end Params

namespace Plan

variable {refusal : PlanRefusal} {is : List Plan} {p : Plan} {op : Operator} {kind : Kind}

theorem checkDirections_read {xs : List Datum} (window : Bool)
    (h : xs.mapM SortKey.ofDatum? = some keys) :
    checkDirections window (.ok xs) = .ok ((keys.map (·.column)).map .text) := by
  simp only [checkDirections, Outcome.ok_bind]
  have hkeys := mapM_eq_some_forall₂ h
  clear h
  induction hkeys with
  | nil => rfl
  | @cons x k xs keys hx _ ih =>
    have hdir : ((Datum.text k.direction.name).same (.text "asc") ||
        (Datum.text k.direction.name).same (.text "desc")) = true := by
      cases k.direction <;> decide
    rw [List.mapM_cons, SortKey.pair_of_ofDatum? hx, Outcome.ok_bind, if_pos hdir, Outcome.pure_eq,
      Outcome.ok_bind, ih]
    rfl

theorem ne_nil_of_checkFilled {ps : Params} {name : String} (hd : ps.data? name = some d)
    (h : Aggregation.listOf? d = some aggs) (hc : checkFilled refusal (ps.get name) = .ok ()) :
    aggs ≠ [] := by
  obtain ⟨ds, rfl, hds⟩ := Aggregation.listOf?_eq_some h
  rw [Params.data?_eq_some hd, checkFilled_eq_ok] at hc
  exact (Datum.truthy_list_read hds).mp hc

theorem texts_ne_nil_of_checkFilled {ps : Params} {name : String} (h : ps.texts? name = some names)
    (hc : checkFilled refusal (ps.get name) = .ok ()) : names ≠ [] := by
  rw [Params.texts?_eq_some h, checkFilled_eq_ok] at hc
  exact Datum.truthy_list_map.mp hc

theorem offers_of_checkNames {ps : Params} {name subject : String} (hp : p.op.isTyped = true)
    (h : ps.texts? name = some names) (hc : checkNames subject (some p) (ps.items name) = .ok ()) :
    p.Offers names := by
  rw [Params.items_of_get (Params.texts?_eq_some h)] at hc
  exact (checkNames_eq_ok hp).mp hc

theorem ne_empty_of_checkFilled {ps : Params} {name s : String} (h : ps.text? name = some s)
    (hc : checkFilled refusal (ps.get name) = .ok ()) : s ≠ "" := by
  rw [Params.text?_eq_some h, checkFilled_eq_ok] at hc
  simpa [Expr.truthy, Datum.truthy] using hc

theorem nonneg_of_checkCount {ps : Params} {name : String} {n : Int} (hd : ps.data? name = some d)
    (h : d.int? = some n) (hc : checkCount refusal (ps.get name) = .ok ()) : 0 ≤ n := by
  rw [Params.data?_eq_some hd, Datum.int?_eq_some h] at hc
  exact checkCount_eq_ok.mp hc

theorem accepts_join_of_check {ps qs : Params} {q : Plan} (hc : check .join ps [p, q] = .ok qs)
    (ho : Operator.ofParams? .join qs = some op) (hp : p.op.isTyped = true)
    (hq : q.op.isTyped = true) : op.Accepts [p, q] := by
  simp only [check, guard_eq_ok] at hc
  obtain ⟨-, hl, hr, -, hc⟩ := hc
  split at hc
  · cases hc
  obtain ⟨hleftOn, hrightOn, hqs⟩ := by simpa only [guard_eq_ok] using hc
  obtain rfl := Except.ok.inj hqs
  simp only [Operator.ofParams?, Option.bind_eq_bind, Option.bind_eq_some_iff] at ho
  obtain ⟨suffixes, -, ho⟩ := ho
  split at ho
  swap
  · cases ho
  simp only [Option.bind_eq_some_iff, Option.pure_def, Option.some.injEq] at ho
  obtain ⟨leftOn, hleft, rightOn, hright, -, -, -, -, -, -, rfl⟩ := ho
  exact ⟨texts_ne_nil_of_checkFilled hleft hl, texts_ne_nil_of_checkFilled hright hr,
    offers_of_checkNames hp hleft hleftOn, offers_of_checkNames hq hright hrightOn⟩

theorem accepts_sort_of_check {ps qs : Params} (hc : check .sort ps [p] = .ok qs)
    (ho : Operator.ofParams? .sort qs = some op) (hp : p.op.isTyped = true) : op.Accepts [p] := by
  simp only [check, guard_eq_ok] at hc
  obtain ⟨-, hne, hc⟩ := hc
  obtain ⟨columns, hcols, hc⟩ := Outcome.bind_eq_ok.mp hc
  have hnames : checkNames "Sort" (some p) (.ok columns) = .ok () ∧ ps = qs ∧
      ((ps.get "limit").isMissing = false →
        checkCount .negativeSortLimit (ps.get "limit") = .ok ()) := by
    split at hc
    · obtain ⟨hcount, hnames, hqs⟩ := by simpa only [guard_eq_ok] using hc
      exact ⟨hnames, Except.ok.inj hqs, fun _ ↦ hcount⟩
    · obtain ⟨hnames, hqs⟩ := guard_eq_ok.mp hc
      exact ⟨hnames, Except.ok.inj hqs, fun hm ↦ by simp_all⟩
  obtain ⟨hnames, rfl, hcount⟩ := hnames
  simp only [Operator.ofParams?, Option.bind_eq_bind, Option.bind_eq_some_iff, Option.pure_def,
    Option.some.injEq] at ho
  obtain ⟨keys, ⟨d, hd, hkeys⟩, cap, hcap, rfl⟩ := ho
  obtain ⟨ds, rfl, hds⟩ := SortKey.listOf?_eq_some hkeys
  have hget := Params.data?_eq_some hd
  rw [Params.items_of_get hget, Datum.items, checkDirections_read false hds] at hcols
  obtain rfl := Except.ok.inj hcols
  rw [hget, checkFilled_eq_ok] at hne
  refine ⟨(Datum.truthy_list_read hds).mp hne, fun n hn ↦ ?_, (checkNames_eq_ok hp).mp hnames⟩
  obtain rfl : cap = some n := hn
  obtain ⟨d, hd, hint⟩ := Params.option?_eq_some hcap
  have hgiven : (ps.get "limit").isMissing = false := by
    rw [Params.data?_eq_some hd, Datum.int?_eq_some hint]
    rfl
  exact nonneg_of_checkCount hd hint (hcount hgiven)

theorem accepts_of_check {ps qs : Params} (hc : check kind ps is = .ok qs)
    (ho : Operator.ofParams? kind qs = some op) (ht : op.isTyped = true)
    (his : ∀ q ∈ is, q.op.isTyped = true) : op.Accepts is := by
  have hbare : kind ≠ .bare := by
    rintro rfl
    cases ho
    cases ht
  have hlen := length_of_check hbare hc
  have hwhole := hc
  have hread := ho
  cases kind with
    (simp only [check, guard_eq_ok, Outcome.pure_eq, Except.ok.injEq, Operator.ofParams?,
      Option.bind_eq_bind, Option.bind_eq_some_iff, Option.pure_def, Option.some.injEq] at hc ho
     try obtain ⟨p, rfl⟩ := List.length_eq_one_iff.mp hlen)
  | bare => exact absurd rfl hbare
  | source =>
    obtain rfl := List.length_eq_zero_iff.mp hlen
    obtain ⟨id, -, schema, -, rfl⟩ := ho
    rfl
  | select =>
    obtain ⟨-, hne, hnames, rfl⟩ := hc
    obtain ⟨names, hcols, rfl⟩ := ho
    have hoffers := offers_of_checkNames (his p (by simp)) hcols hnames
    exact ⟨texts_ne_nil_of_checkFilled hcols hne, hoffers⟩
  | filter =>
    obtain ⟨-, hfilled, hexpr, rfl⟩ := hc
    subst ho
    exact ⟨checkGiven_eq_ok.mp hfilled, (checkExpr_eq_ok (his p (by simp))).mp hexpr⟩
  | join =>
    obtain ⟨p, q, rfl⟩ := List.length_eq_two.mp hlen
    exact accepts_join_of_check hwhole hread (his p (by simp)) (his q (by simp))
  | groupBy =>
    obtain ⟨-, hne, hc⟩ := hc
    have hqs : ps = qs := by
      split at hc
      · obtain ⟨-, -, hc⟩ := Outcome.bind_eq_ok.mp hc
        exact Except.ok.inj hc
      · exact Except.ok.inj hc
    subst hqs
    obtain ⟨keys, -, aggs, ⟨d, hd, haggs⟩, -, -, -, -, rfl⟩ := ho
    exact ne_nil_of_checkFilled hd haggs hne
  | aggregate =>
    obtain ⟨-, hne, rfl⟩ := hc
    obtain ⟨aggs, ⟨d, hd, haggs⟩, rfl⟩ := ho
    exact ne_nil_of_checkFilled hd haggs hne
  | sort => exact accepts_sort_of_check hwhole hread (his p (by simp))
  | limit =>
    obtain ⟨-, hcount, hc⟩ := hc
    split at hc
    · cases hc
    obtain rfl := Except.ok.inj hc
    obtain ⟨count, ⟨d, hd, hint⟩, side, -, rfl⟩ := ho
    exact nonneg_of_checkCount hd hint hcount
  | withColumn =>
    obtain ⟨-, hne, hfilled, hexpr, rfl⟩ := hc
    obtain ⟨name, hname, rfl⟩ := ho
    exact ⟨ne_empty_of_checkFilled hname hne, checkGiven_eq_ok.mp hfilled,
      (checkExpr_eq_ok (his p (by simp))).mp hexpr⟩
  | union =>
    obtain ⟨p, q, rfl⟩ := List.length_eq_two.mp hlen
    subst ho
    intro s t hs ht
    simp only [List.map_cons, List.map_nil, statedSchema_eq (his p (by simp)),
      statedSchema_eq (his q (by simp)), hs, ht, Option.map_some] at hc
    obtain ⟨-, hc⟩ := hc
    split at hc
    · exact Datum.same_ofTexts.mp ‹_›
    · cases hc
  | pivot =>
    obtain ⟨-, hindex, hcols, hvals, rfl⟩ := hc
    obtain ⟨index, hi, columns, hc, values, hv, -, -, rfl⟩ := ho
    exact ⟨texts_ne_nil_of_checkFilled hi hindex, ne_empty_of_checkFilled hc hcols,
      ne_empty_of_checkFilled hv hvals⟩
  | melt =>
    obtain ⟨-, hids, rfl⟩ := hc
    obtain ⟨idVars, hi, -, -, -, -, -, -, rfl⟩ := ho
    exact texts_ne_nil_of_checkFilled hi hids
  | window =>
    obtain ⟨-, hfunc, hout, hc⟩ := hc
    obtain ⟨-, -, hc⟩ := Outcome.bind_eq_ok.mp hc
    obtain rfl := Except.ok.inj hc
    obtain ⟨func, hf, -, -, output, ho, -, -, -, -, -, -, rfl⟩ := ho
    exact ⟨ne_empty_of_checkFilled hf hfunc, ne_empty_of_checkFilled ho hout⟩

/-- Plans put together node by node: every node was built over the plans below it and has parameters
of their kinds. -/
inductive Assembled : Plan → Prop
  | node {kind : Kind} {a : NodeArgs} {m : Option Nat} {op : Operator} {is : List Plan}
      (built : build kind a = .ok (fresh op is)) (typed : op.isTyped = true)
      (inputs : ∀ p ∈ is, Assembled p) : Assembled (.node m op is)

theorem accepts_of_build {a : NodeArgs} (h : build kind a = .ok (fresh op is))
    (ht : op.isTyped = true) (his : ∀ q ∈ is, q.op.isTyped = true) : op.Accepts is := by
  unfold build at h
  split at h
  · cases h
  obtain ⟨qs, hc, hq⟩ := Outcome.bind_eq_ok.mp h
  simp only [fresh, Outcome.pure_eq, Except.ok.injEq, Plan.node.injEq, true_and] at hq
  obtain ⟨hop, rfl⟩ := hq
  cases ho : Operator.ofParams? kind qs with
  | none =>
    have hloose : op = .loose kind qs := by rw [← hop, Operator.ofParams, ho]; rfl
    subst hloose
    cases ht
  | some op' =>
    rw [Operator.ofParams, ho, Option.getD_some] at hop
    -- the data of a source has no part in the check
    have ht' : op'.isTyped = true := by
      subst hop
      cases op' with
      | source => rfl
      | _ => exact ht
    have hacc := accepts_of_check hc ho ht' his
    subst hop
    cases op' with
    | source => exact hacc
    | _ => exact hacc

theorem Assembled.built (h : p.Assembled) : p.Built := by
  induction h with
  | node hb ht _ ih =>
    exact built_node.mpr ⟨⟨ht, accepts_of_build hb ht fun q hq ↦ isTyped_of_built (ih q hq)⟩, ih⟩

inductive SameKinds : Plan → Plan → Prop
  | node {m m' : Option Nat} {op op' : Operator} {is js : List Plan} (kind : op.kind = op'.kind)
      (inputs : List.Forall₂ SameKinds is js) : SameKinds (.node m op is) (.node m' op' js)

theorem sameKinds_filed (p : Plan) : p.filed.SameKinds p := by
  induction p with
  | node m op is ih =>
    rw [filed_node]
    exact .node (Operator.kind_filed op) (List.forall₂_map_left_iff.mpr (List.forall₂_same.mpr ih))

theorem listToDatum_filed (h : ∀ i ∈ is, i.filed.toDatum = i.toDatum) :
    listToDatum (is.map filed) = listToDatum is := by
  induction is with
  | nil => rfl
  | cons p ps ih =>
    rw [List.map_cons, listToDatum, listToDatum, h p (by simp), ih fun i hi ↦ h i (by simp [hi])]

theorem toDatum_filed (hb : p.Built) (hs : p.isStorable = true) : p.filed.toDatum = p.toDatum := by
  induction p with
  | node m op is ih =>
    obtain ⟨⟨ht, ha⟩, hbs⟩ := built_node.mp hb
    have hfiled := built_node.mp (filed_node m op is ▸ hb.filed hs)
    rw [isStorable_node] at hs
    obtain ⟨ds, hds, -⟩ := listToDatum_read fun q hq ↦
      isRead_of_isStorable (hbs q hq) (hs.2 q hq)
    have hsame : listToDatum (is.map filed) = listToDatum is :=
      listToDatum_filed fun i hi ↦ ih i hi (hbs i hi) (hs.2 i hi)
    rw [filed_node, toDatum_node hfiled.1.1 hfiled.1.2.length (by simp [hsame, hds]),
      toDatum_node ht ha.length (by simp [hds]), hsame,
      if_pos op.isStorable_filed, if_pos hs.1]
    simp only [Operator.fields_filed]

theorem deserialize_document {q : Plan} (h : ofDatum d = .ok q) :
    deserialize (.record [("version", .text formatVersion), ("root", d)]) = .ok q := by
  have hv : (Datum.text formatVersion).same (.text formatVersion) = true := by decide
  simp [deserialize, List.lookup_cons, hv, h]

/-- The record of a plan that was put together is read back, node for node of the same kind, and
what is read has this record again. So has the document of the plan. -/
theorem toDatum_stable {p : Plan} (hp : p.Assembled) (hs : p.isStorable = true) :
    ∃ d q, p.toDatum = .ok d ∧ ofDatum d = .ok q ∧ q.SameKinds p ∧ q.toDatum = .ok d ∧
      ∃ document, p.serialize = .ok document ∧ deserialize document = .ok q ∧
        q.serialize = .ok document := by
  have hb := hp.built
  obtain ⟨fs, hd, hread⟩ := isRead_of_isStorable hb hs
  have hq : ofDatum (.record fs) = .ok p.filed := hread _ le_rfl
  have hagain : p.filed.toDatum = .ok (.record fs) := (toDatum_filed hb hs).trans hd
  refine ⟨_, p.filed, hd, hq, sameKinds_filed p, hagain, _, ?_, deserialize_document hq, ?_⟩
  · simp only [serialize, hd, Outcome.ok_bind, Outcome.pure_eq]
  · simp only [serialize, hagain, Outcome.ok_bind, Outcome.pure_eq]

def ledger : Plan := .node (some 0) (.source "t" (some ["a", "b"]) none) []

def credits : Plan :=
  .node (some 1) (.filter (.binary ">" (.column "a") (.literal (.int 0)))) [ledger]

def matched : Plan :=
  .node (some 2) (.join ["a"] ["a"] .outer (some "_x", some "_y")) [credits, ledger]

def counted : Plan := .node (some 3) (.groupBy ["a"] [⟨"n", "count", "b"⟩] [] (some 0)) [matched]

def ranked : Plan :=
  .node (some 4) (.sort [⟨"n", .desc⟩] (some 0) (some (.raw (.int 0)))) [counted]

/-- Where a parameter has a second name it is given by that one; a list may stand for a tuple. -/
theorem assembled_ranked : ranked.Assembled := by
  have hledger : ledger.Assembled := @Assembled.node .source
    { params := [("name", .raw (.text "t")), ("schema", .raw (.list [.text "a", .text "b"]))] }
    _ _ _ rfl rfl (by simp)
  have hcredits : credits.Assembled := @Assembled.node .filter
    { params := [("predicate", .binary ">" (.column "a") (.literal (.int 0)))],
      input := some ledger } _ _ _ rfl rfl (by simpa using hledger)
  have hmatched : matched.Assembled := @Assembled.node .join
    { params := [("left_key", .raw (.text "a")), ("right_on", .raw (.text "a")),
        ("how", .raw (.text "outer"))], left := some credits, right := some ledger }
    _ _ _ rfl rfl (by simpa using ⟨hcredits, hledger⟩)
  have hcounted : counted.Assembled := @Assembled.node .groupBy
    { params := [("keys", .raw (.list [.text "a"])), ("limit", .raw (.int 0)),
        ("aggregations", .raw (.list [.tuple [.text "n", .text "count", .text "b"]])),
        ("sort_keys", .raw (.list []))], inputs := [matched] }
    _ _ _ rfl rfl (by simpa using hmatched)
  exact @Assembled.node .sort
    { params := [("keys", .raw (.list [.list [.text "n", .text "desc"]])),
        ("limit", .raw (.int 0)), ("predicate", .raw (.int 0))], input := some counted }
    _ _ _ rfl rfl (by simpa using hcounted)

theorem toDatum_stable_ranked : ranked.Assembled ∧ ranked.isStorable = true ∧
    ∃ d q, ranked.toDatum = .ok d ∧ ofDatum d = .ok q ∧ q.SameKinds ranked ∧ q.toDatum = .ok d ∧
      ∃ document, ranked.serialize = .ok document ∧ deserialize document = .ok q ∧
        q.serialize = .ok document :=
  ⟨assembled_ranked, rfl, toDatum_stable assembled_ranked rfl⟩

end Plan

end Gridplan
