import Gridplan.Proofs.Optimize.Passes

namespace Gridplan

open Outcome (bind_eq_ok)

def Operator.sourceId? (op : Operator) : Option String :=
  if op.kind = .source then op.params.text? "source_id" else none

namespace Plan

variable {p q : Plan} {m : Option Nat} {op : Operator} {is news : List Plan} {id : String}
  {k : Kind} {ps : Params} {fs : List (String × Datum)} {d : Datum}

def HasSource (p : Plan) (id : String) : Prop := ∃ x ∈ p.occurrences, x.op.sourceId? = some id

theorem hasSource_node :
    HasSource (.node m op is) id ↔ op.sourceId? = some id ∨ ∃ i ∈ is, i.HasSource id := by
  simp only [HasSource, mem_occurrences_node]
  constructor
  · rintro ⟨x, rfl | ⟨i, hi, hx⟩, hid⟩
    · exact .inl hid
    · exact .inr ⟨i, hi, x, hx, hid⟩
  · rintro (hid | ⟨i, hi, x, hx, hid⟩)
    · exact ⟨_, .inl rfl, hid⟩
    · exact ⟨x, .inr ⟨i, hi, hx⟩, hid⟩

theorem kind_of_ofParams? (h : Operator.ofParams? k ps = some op) : op.kind = k := by
  cases k <;> simp only [Operator.ofParams?, Option.bind_eq_bind, Option.bind_eq_some_iff,
    Option.pure_def, Option.some.injEq] at h
  case join =>
    obtain ⟨d, _, h⟩ := h
    split at h
    · simp only [Option.bind_eq_some_iff, Option.some.injEq] at h
      obtain ⟨_, _, _, _, _, _, _, _, _, _, rfl⟩ := h
      rfl
    · cases h
  all_goals grind [Operator.kind]

theorem kind_ofParams (k : Kind) (ps : Params) : (Operator.ofParams k ps).kind = k := by
  rw [Operator.ofParams]
  cases h : Operator.ofParams? k ps with
  | none => rfl
  | some op => exact kind_of_ofParams? h

theorem kind_withData (data : Option Frame) (op : Operator) :
    (withData data op).kind = op.kind := by
  cases op <;> rfl

theorem sourceId?_ofParams (k : Kind) (ps : Params) :
    (withData none (Operator.ofParams k ps)).sourceId? =
      if k = .source then ps.text? "source_id" else none := by
  rw [Operator.sourceId?, kind_withData, kind_ofParams]
  refine if_ctx_congr Iff.rfl (fun hk ↦ ?_) fun _ ↦ rfl
  subst hk
  rw [Operator.ofParams]
  cases h : Operator.ofParams? .source ps with
  | none => rfl
  | some op =>
    simp only [Operator.ofParams?, Option.bind_eq_bind, Option.bind_eq_some_iff,
      Option.pure_def, Option.some.injEq] at h
    obtain ⟨id, hid, schema, _, rfl⟩ := h
    rw [hid]
    rfl

theorem decode_eq_ok {n : Nat} (h : decode n (.record fs) = .ok q) :
    ∃ j k recs is ps op, kindOf (.record fs) = .ok k ∧ inputRecords (.record fs) = .ok recs ∧
      recs.mapM (decode j) = .ok is ∧
      (fs.filter fun f ↦ !structural k f.1).mapM (restore k) = .ok ps ∧ q = .node none op is ∧
      op.sourceId? = if k = .source then (Params.complete k ps).text? "source_id" else none := by
  cases n with
  | zero => cases h
  | succ j =>
    simp only [decode, bind_eq_ok] at h
    obtain ⟨k, hk, recs, hrecs, is, his, ps, hps, h⟩ := h
    have hin : resolveInputs k { params := ps, inputs := is } = is := by
      cases is <;> simp [resolveInputs]
    simp only [build, hin] at h
    split at h
    · cases h
    · obtain ⟨qs, hqs, h⟩ := bind_eq_ok.mp h
      obtain rfl := Except.ok.inj h
      refine ⟨j, k, recs, is, ps, _, hk, hrecs, his, hps, rfl, ?_⟩
      rw [sourceId?_ofParams]
      refine if_ctx_congr Iff.rfl (fun hsource ↦ ?_) fun _ ↦ rfl
      subst hsource
      simp only [check] at hqs
      split at hqs
      · rw [Except.ok.inj hqs]
      · cases hqs

theorem mem_inputRecords {ds recs : List Datum} (h : inputRecords (.record fs) = .ok recs)
    (hlist : (fs.lookup "inputs").getD (.list []) = .list ds)
    (hsingle : ∀ d, fs.lookup "input" = some d → ∃ gs, d = .record gs) {r : Datum} (hr : r ∈ recs) :
    r ∈ ds ∨ fs.lookup "input" = some r := by
  simp only [inputRecords, Datum.field?, hlist] at h
  cases ds with
  | cons d ds =>
    rw [if_pos (by rfl : (Datum.list (d :: ds)).truthy = true)] at h
    obtain rfl := Except.ok.inj h
    exact .inl hr
  | nil =>
    rw [if_neg (by simp [Datum.truthy])] at h
    cases hi : fs.lookup "input" with
    | none =>
      rw [hi] at h
      obtain rfl := Except.ok.inj h
      cases hr
    | some d =>
      obtain ⟨gs, rfl⟩ := hsingle d hi
      rw [hi] at h
      obtain rfl := Except.ok.inj h
      rw [List.mem_singleton.mp hr]
      exact .inr rfl

section Stored

variable {name : String} {f : String × Datum}

@[grind →] theorem storedParam_name (h : storedParam ps name = .ok f) : f.1 = name := by
  obtain ⟨v, _, h⟩ := bind_eq_ok.mp h
  rw [← Except.ok.inj h]

@[grind →] theorem storedLists_name (h : storedLists ps name = .ok f) : f.1 = name := by
  simp only [storedLists, bind_eq_ok] at h
  obtain ⟨_, _, items, _, h⟩ := h
  rw [← Except.ok.inj h]

@[grind →] theorem storedNames_name (h : storedNames ps name = .ok f) : f.1 = name := by
  obtain ⟨d, _, h⟩ := bind_eq_ok.mp h
  split at h <;> rw [← Except.ok.inj h]

@[grind →] theorem storedIfGiven_name (h : storedIfGiven ps name = .ok fs) (hf : f ∈ fs) :
    f.1 = name := by
  rw [storedIfGiven] at h
  split at h
  · rw [← Except.ok.inj h] at hf
    cases hf
  · obtain ⟨g, hg, h⟩ := bind_eq_ok.mp h
    rw [← Except.ok.inj h] at hf
    rw [List.mem_singleton.mp hf]
    exact storedParam_name hg

def Records (is : List Plan) (d : Datum) : Prop := ∃ i ∈ is, i.toDatum = .ok d

theorem records_of_headToDatum (h : headToDatum is = .ok d) : Records is d := by
  cases is with
  | nil => cases h
  | cons p ps => exact ⟨p, by simp, h⟩

theorem records_of_listToDatum {ds : List Datum} (h : listToDatum is = .ok ds) :
    ∀ d ∈ ds, Records is d := by
  induction is generalizing ds with
  | nil =>
    obtain rfl := Except.ok.inj h
    simp
  | cons p ps ih =>
    simp only [listToDatum, bind_eq_ok] at h
    obtain ⟨d, hd, rest, hrest, h⟩ := h
    obtain rfl := Except.ok.inj h
    refine List.forall_mem_cons.mpr ⟨⟨p, by simp, hd⟩, fun e he ↦ ?_⟩
    obtain ⟨i, hi, hie⟩ := ih hrest e he
    exact ⟨i, by simp [hi], hie⟩

structure Stored (op : Operator) (is : List Plan) (fs : List (String × Datum)) : Prop where
  single : ∀ d, fs.lookup "input" = some d → Records is d
  listed : ∃ ds, (fs.lookup "inputs").getD (.list []) = .list ds ∧ ∀ d ∈ ds, Records is d
  source : op.kind = .source → ∃ id schema, (op.params.get "source_id").stored = .ok id ∧
    fs = [("source_id", id), ("schema", schema), ("inputs", .list [])]

theorem lookup_middle {before after : List (String × Datum)} {key : String} {v : Datum}
    (h : ∀ f ∈ before, f.1 ≠ key) : (before ++ (key, v) :: after).lookup key = some v := by
  induction before with
  | nil => simp
  | cons f before ih =>
    obtain ⟨hf, hbefore⟩ := List.forall_mem_cons.mp h
    rw [List.cons_append, List.lookup_cons, beq_false_of_ne hf.symm]
    exact ih hbefore

theorem stored_unary (before after : List (String × Datum)) {e : Datum} (hk : op.kind ≠ .source)
    (he : headToDatum is = .ok e)
    (hnames : ∀ f ∈ before ++ after, f.1 ≠ "input" ∧ f.1 ≠ "inputs") :
    Stored op is (before ++ ("input", e) :: after) where
  single d hd := by
    rw [lookup_middle fun f hf ↦ (hnames f (List.mem_append_left _ hf)).1] at hd
    obtain rfl := Option.some.inj hd
    exact records_of_headToDatum he
  listed := by
    have hnone : (before ++ ("input", e) :: after).lookup "inputs" = none := by
      refine List.lookup_eq_none_iff.mpr fun f hf ↦ ?_
      rcases List.mem_append.mp hf with hf | hf
      · simpa using Ne.symm (hnames f (List.mem_append_left _ hf)).2
      · rcases List.mem_cons.mp hf with rfl | hf
        · rfl
        · simpa using Ne.symm (hnames f (List.mem_append_right _ hf)).2
    exact ⟨[], by rw [hnone]; rfl, by simp⟩
  source h := absurd h hk

theorem stored_binary (before : List (String × Datum)) {ds : List Datum} (hk : op.kind ≠ .source)
    (hds : listToDatum is = .ok ds) (hnames : ∀ f ∈ before, f.1 ≠ "input" ∧ f.1 ≠ "inputs") :
    Stored op is (before ++ [("inputs", .list ds)]) where
  single d hd := by
    have hnone : (before ++ [("inputs", Datum.list ds)]).lookup "input" = none := by
      refine List.lookup_eq_none_iff.mpr fun f hf ↦ ?_
      rcases List.mem_append.mp hf with hf | hf
      · simpa using Ne.symm (hnames f hf).1
      · rw [List.mem_singleton.mp hf]
        rfl
    rw [hnone] at hd
    cases hd
  listed := ⟨ds, by rw [lookup_middle fun f hf ↦ (hnames f hf).2]; rfl, records_of_listToDatum hds⟩
  source h := absurd h hk

theorem stored_of_toDatum (h : toDatum (.node m op is) = .ok d) :
    op.kind ≠ .bare ∧ ∃ fs, d = tagged op.kind fs ∧ Stored op is fs := by
  have hunary (before after : List (String × Datum)) {k : Kind} {e : Datum} (hk : op.kind = k)
      (hsource : k ≠ .source) (he : headToDatum is = .ok e)
      (hnames : ∀ f ∈ before ++ after, f.1 ≠ "input" ∧ f.1 ≠ "inputs")
      (h : (.ok (tagged k (before ++ ("input", e) :: after)) : Outcome Datum) = .ok d) :
      ∃ fs, d = tagged k fs ∧ Stored op is fs :=
    ⟨_, (Except.ok.inj h).symm, stored_unary before after (hk ▸ hsource) he hnames⟩
  have hbinary (before : List (String × Datum)) {k : Kind} {ds : List Datum} (hk : op.kind = k)
      (hsource : k ≠ .source) (hds : listToDatum is = .ok ds)
      (hnames : ∀ f ∈ before, f.1 ≠ "input" ∧ f.1 ≠ "inputs")
      (h : (.ok (tagged k (before ++ [("inputs", .list ds)])) : Outcome Datum) = .ok d) :
      ∃ fs, d = tagged k fs ∧ Stored op is fs :=
    ⟨_, (Except.ok.inj h).symm, stored_binary before (hk ▸ hsource) hds hnames⟩
  rw [toDatum] at h
  cases hk : op.kind <;> simp only [hk, bind_eq_ok] at h
  case bare => cases h
  all_goals refine ⟨by decide, ?_⟩
  case source =>
    obtain ⟨f, hf, g, hg, h⟩ := h
    obtain ⟨a, ha, hf⟩ := bind_eq_ok.mp hf
    obtain ⟨b, _, hg⟩ := bind_eq_ok.mp hg
    obtain rfl := Except.ok.inj hf
    obtain rfl := Except.ok.inj hg
    refine ⟨_, (Except.ok.inj h).symm, by simp [List.lookup_cons], ⟨[], ?_⟩, ?_⟩
    · simp [List.lookup_cons]
    · exact fun _ ↦ ⟨a, b, ha, rfl⟩
  case select =>
    obtain ⟨f, hf, e, he, gs, hgs, h⟩ := h
    exact hunary [f] gs hk (by decide) he (by grind) h
  case filter | aggregate =>
    obtain ⟨f, hf, e, he, h⟩ := h
    exact hunary [f] [] hk (by decide) he (by grind) h
  case join =>
    obtain ⟨f, hf, g, hg, i, hi, j, hj, ds, hds, h⟩ := h
    exact hbinary [f, g, i, j] hk (by decide) hds (by grind) h
  case groupBy =>
    obtain ⟨f, hf, g, hg, e, he, h⟩ := h
    split at h
    · simp only [bind_eq_ok] at h
      obtain ⟨k, hkey, ks, hks, gs, hgs, h⟩ := h
      obtain rfl := Except.ok.inj hks
      exact hunary [f, g] ([k] ++ gs) hk (by decide) he (by grind) h
    · simp only [bind_eq_ok] at h
      obtain ⟨ks, hks, gs, hgs, h⟩ := h
      obtain rfl := Except.ok.inj hks
      exact hunary [f, g] gs hk (by decide) he (by grind) h
  case sort =>
    obtain ⟨f, hf, e, he, gs, hgs, ks, hks, h⟩ := h
    exact hunary [f] (gs ++ ks) hk (by decide) he (by grind) h
  case limit | withColumn =>
    obtain ⟨f, hf, g, hg, e, he, h⟩ := h
    exact hunary [f, g] [] hk (by decide) he (by grind) h
  case union =>
    obtain ⟨ds, hds, h⟩ := h
    exact hbinary [] hk (by decide) hds (by simp) h
  case pivot | melt =>
    obtain ⟨f, hf, g, hg, i, hi, j, hj, e, he, h⟩ := h
    exact hunary [f, g, i, j] [] hk (by decide) he (by grind) h
  case window =>
    obtain ⟨f, hf, g, hg, i, hi, j, hj, k, hkey, l, hl, e, he, h⟩ := h
    exact hunary [f, g, i, j, k, l] [] hk (by decide) he (by grind) h

end Stored

theorem eq_raw_of_stored {e : Expr} (h : e.stored = .ok (.text id)) : e = .raw (.text id) := by
  cases e with
  | raw d => rw [Except.ok.inj h]
  | binary | unary | call =>
    simp only [Expr.stored, Expr.toDatum, bind_eq_ok, Outcome.pure_eq, Except.ok.injEq] at h
    grind
  | _ => cases h

theorem sourceId?_of_stored (hk : op.kind = .source)
    (h : (op.params.get "source_id").stored = .ok (.text id)) : op.sourceId? = some id := by
  rw [Operator.sourceId?, if_pos hk]
  simp [Params.text?, Params.data?, eq_raw_of_stored h, Datum.text?]

def Faithful (p : Plan) : Prop :=
  ∀ d n q id, p.toDatum = .ok d → decode n d = .ok q → q.HasSource id → p.HasSource id

theorem hasSource_of_decode {n : Nat} (hbare : op.kind ≠ .bare)
    (htag : fs.lookup "type" = some (.text op.kind.tag))
    (hsingle : ∀ d, fs.lookup "input" = some d → Records is d)
    (hlisted : ∃ ds, (fs.lookup "inputs").getD (.list []) = .list ds ∧ ∀ d ∈ ds, Records is d)
    (hsource : op.kind = .source → ∃ a b, (op.params.get "source_id").stored = .ok a ∧
      fs.filter (fun f ↦ !structural .source f.1) = [("source_id", a), ("schema", b)])
    (his : ∀ i ∈ is, i.Faithful) (h : decode n (.record fs) = .ok q) (hid : q.HasSource id) :
    op.sourceId? = some id ∨ ∃ i ∈ is, i.HasSource id := by
  obtain ⟨j, k, recs, js, ps, op', hk, hrecs, hjs, hps, rfl, hid'⟩ := decode_eq_ok h
  obtain rfl : op.kind = k := Except.ok.inj ((kindOf_eq hbare htag).symm.trans hk)
  rcases hasSource_node.mp hid with hop | ⟨x, hx, hxid⟩
  · rw [hid'] at hop
    split at hop
    · next hkind =>
      obtain ⟨a, b, ha, hfs⟩ := hsource hkind
      rw [hkind, hfs] at hps
      obtain rfl : [("source_id", .raw a), ("schema", .raw b)] = ps := Except.ok.inj hps
      have hcomplete : Params.complete .source [("source_id", .raw a), ("schema", .raw b)] =
          [("source_id", .raw a), ("schema", .raw b)] := rfl
      rw [hkind, hcomplete] at hop
      have hatext : a.text? = some id := hop
      obtain rfl : a = .text id := by
        cases a with
        | text s => exact congrArg _ (Option.some.inj hatext)
        | _ => cases hatext
      exact .inl (sourceId?_of_stored hkind ha)
    · cases hop
  · obtain ⟨ds, hds, hdsrec⟩ := hlisted
    have hread := Outcome.Ensures.mapM_forall₂ (R := fun r y ↦ decode j r = .ok y)
      (fun r _ y hy ↦ hy) js hjs
    obtain ⟨r, hr, hrx⟩ := exists_of_forall₂ (R := fun r y ↦ decode j r = .ok y) hread hx
    have hrec : Records is r := by
      have hsub := mem_inputRecords hrecs hds (fun d hd ↦ ?_) hr
      · rcases hsub with hr | hr
        · exact hdsrec r hr
        · exact hsingle r hr
      · obtain ⟨⟨m, o, ks⟩, _, hi⟩ := hsingle d hd
        obtain ⟨_, gs, rfl, _⟩ := stored_of_toDatum hi
        exact ⟨_, rfl⟩
    obtain ⟨i, hi, hir⟩ := hrec
    exact .inr ⟨i, hi, his i hi r j x id hir hrx hxid⟩

theorem faithful (p : Plan) : p.Faithful := by
  induction p with
  | node m op is ih =>
    intro d n q id hd hq hid
    obtain ⟨hbare, fs, rfl, hst⟩ := stored_of_toDatum hd
    refine hasSource_node.mpr (hasSource_of_decode hbare rfl ?_ ?_ ?_ ih hq hid)
    · simpa [List.lookup_cons] using hst.single
    · simpa [List.lookup_cons] using hst.listed
    · intro hk
      obtain ⟨a, b, ha, rfl⟩ := hst.source hk
      exact ⟨a, b, ha, rfl⟩

theorem hasSource_of_withInputs (h : (Plan.node m op is).withInputs news = .ok q)
    (hid : q.HasSource id) :
    (Plan.node m op is).HasSource id ∨ ∃ i ∈ news, i.HasSource id := by
  simp only [withInputs, bind_eq_ok] at h
  obtain ⟨d, hd, ds, hds, h⟩ := h
  obtain ⟨hbare, fs, rfl, hst⟩ := stored_of_toDatum hd
  have hnews := records_of_listToDatum hds
  have hsub : ∀ d, Records is d → Records (is ++ news) d := by
    intro d hd
    obtain ⟨i, hi, hid⟩ := hd
    exact ⟨i, List.mem_append_left _ hi, hid⟩
  have hgone : ((("type", Datum.text op.kind.tag) :: fs).filter (·.1 != "inputs")).lookup "inputs" =
      none := by
    refine List.lookup_eq_none_iff.mpr fun f hf ↦ ?_
    have hne := (List.mem_filter.mp hf).2
    simp only [bne_iff_ne, ne_eq] at hne ⊢
    exact fun h ↦ hne h.symm
  have hfrom : op.sourceId? = some id ∨ ∃ i ∈ is ++ news, i.HasSource id :=
    hasSource_of_decode hbare ?_ ?_ ?_ ?_ (fun i _ ↦ faithful i) h hid
  · rcases hfrom with hop | ⟨i, hi, hiid⟩
    · exact .inl (hasSource_node.mpr (.inl hop))
    · rcases List.mem_append.mp hi with hi | hi
      · exact .inl (hasSource_node.mpr (.inr ⟨i, hi, hiid⟩))
      · exact .inr ⟨i, hi, hiid⟩
  · rw [List.lookup_append, tagged, Datum.fields, lookup_filter_ne (by decide)]
    rfl
  · intro d hlookup
    rw [List.lookup_append, tagged, Datum.fields, lookup_filter_ne (by decide)] at hlookup
    refine hsub d (hst.single d ?_)
    simpa [List.lookup_cons] using hlookup
  · refine ⟨ds, ?_, fun d hd ↦ ?_⟩
    · rw [List.lookup_append, tagged, Datum.fields, hgone]
      rfl
    · obtain ⟨i, hi, hid⟩ := hnews d hd
      exact ⟨i, List.mem_append_right _ hi, hid⟩
  · intro hk
    obtain ⟨a, b, ha, rfl⟩ := hst.source hk
    exact ⟨a, b, ha, rfl⟩

end Plan

namespace Optimize

open Plan (HasSource hasSource_node)

variable {rule : Rule} {m : Option Nat} {op : Operator} {is : List Plan} {p q : Plan} {id : String}

theorem hasSource_of_make (hop : op.kind ≠ .source) (h : Plan.make op is = .ok q)
    (hid : q.HasSource id) : ∃ i ∈ is, i.HasSource id := by
  obtain ⟨_, _, h⟩ := bind_eq_ok.mp h
  obtain rfl := Except.ok.inj h
  refine (hasSource_node.mp hid).resolve_left ?_
  rw [Operator.sourceId?, if_neg hop]
  exact (Option.some_ne_none id).symm

theorem hasSource_below (h : ∃ i ∈ is, i.HasSource id) :
    ∃ i ∈ [Plan.node m op is], i.HasSource id :=
  ⟨_, List.mem_singleton_self _, hasSource_node.mpr (.inr h)⟩

theorem hasSource_of_replaced (hop : op.kind ≠ .source) {op' : Operator}
    (h : (Plan.make op is >>= fun p ↦ pure (some p)) = .ok (some q)) (hid : q.HasSource id) :
    ∃ i ∈ [Plan.node m op' is], i.HasSource id :=
  hasSource_below (hasSource_of_make hop (eq_ok_of_some h) hid)

def Closed (rule : Rule) : Prop :=
  ∀ op is q id, rule op is = .ok (some q) → q.HasSource id → ∃ i ∈ is, i.HasSource id

theorem pushFilters_closed : Closed pushFilters := by
  intro op is q id h hid
  unfold pushFilters at h
  split at h
  · split at h
    · obtain ⟨below, hbelow, h⟩ := bind_eq_ok.mp h
      have htop := hasSource_of_make (by simp [Operator.kind]) (eq_ok_of_some h) hid
      obtain ⟨i, hi, hid⟩ := htop
      rw [List.mem_singleton.mp hi] at hid
      exact hasSource_below (hasSource_of_make (by simp [Operator.kind]) hbelow hid)
    · cases h
  · exact hasSource_of_replaced (by simp [Operator.kind]) h hid
  · cases h

theorem mergeProjections_closed : Closed mergeProjections := by
  intro op is q id h hid
  unfold mergeProjections at h
  split at h
  · exact hasSource_of_replaced (by simp [Operator.kind]) h hid
  · cases h

theorem fuseLoose_closed : Closed fuseLoose := by
  intro op is q id h hid
  unfold fuseLoose at h
  split at h
  · split at h
    · exact hasSource_of_replaced (by simp [Plan.kind_ofParams]) h hid
    · exact hasSource_of_replaced (by simp [Plan.kind_ofParams]) h hid
    · cases h
  · cases h

theorem fuse_closed : Closed fuse := by
  intro op is q id h hid
  unfold fuse at h
  split at h
  · exact hasSource_of_replaced (by simp [Operator.kind]) h hid
  · exact hasSource_of_replaced (by simp [Operator.kind]) h hid
  · exact hasSource_of_replaced (by simp [Operator.kind]) h hid
  · exact fuseLoose_closed _ _ _ _ h hid
  · exact fuseLoose_closed _ _ _ _ h hid
  · cases h

theorem simplifyLoose_closed : Closed simplifyLoose := by
  intro op is q id h hid
  unfold simplifyLoose at h
  split at h
  · split at h
    · exact hasSource_of_replaced (by simp [Plan.kind_ofParams]) h hid
    · cases h
  · cases h

theorem simplify_closed : Closed simplify := by
  intro op is q id h hid
  unfold simplify at h
  split at h
  · obtain ⟨names, _, h⟩ := bind_eq_ok.mp h
    split at h
    · obtain rfl := Option.some.inj (Except.ok.inj h)
      exact ⟨_, by simp, hid⟩
    · cases h
  · obtain rfl := Option.some.inj (Except.ok.inj h)
    exact ⟨_, by simp, hid⟩
  · exact hasSource_of_replaced (by simp [Operator.kind]) h hid
  · exact simplifyLoose_closed _ _ _ _ h hid
  · exact simplifyLoose_closed _ _ _ _ h hid
  · cases h

theorem closed_of_mem (h : rule ∈ rules) : Closed rule := by
  simp only [rules, List.mem_cons, List.not_mem_nil, or_false] at h
  rcases h with rfl | rfl | rfl | rfl
  · exact pushFilters_closed
  · exact mergeProjections_closed
  · exact fuse_closed
  · exact simplify_closed

theorem hasSource_of_step (hrule : Closed rule) {r : Option Plan} (h : step rule p = .ok r)
    (hid : (r.getD p).HasSource id) : p.HasSource id := by
  induction p generalizing r id with
  | node m op is ih =>
    obtain ⟨hsteps, hcases⟩ := step_cases h
    have hafter : (∃ i ∈ is.map (after rule), i.HasSource id) →
        (Plan.node m op is).HasSource id := by
      rintro ⟨_, hmem, hid⟩
      obtain ⟨i, hi, rfl⟩ := List.mem_map.mp hmem
      obtain ⟨s, hs⟩ := hsteps i hi
      rw [after, changed, hs] at hid
      exact hasSource_node.mpr (.inr ⟨i, hi, ih i hi hs hid⟩)
    rcases hcases with ⟨q, hq, rfl⟩ | ⟨-, -, rfl⟩ | ⟨q, -, hq, rfl⟩
    · exact hafter (hrule _ _ _ _ hq hid)
    · exact hid
    · exact (Plan.hasSource_of_withInputs hq hid).elim (fun h ↦ h) hafter

theorem hasSource_of_optimize (h : p.optimize = .ok q) (hid : q.HasSource id) : p.HasSource id :=
  optimize_related (R := fun p q ↦ q.HasSource id → p.HasSource id) (fun _ hid ↦ hid)
    (fun _ _ _ hpq hqr hid ↦ hpq (hqr hid))
    (fun _ hr _ _ h ↦ hasSource_of_step (closed_of_mem hr) h) h hid

end Optimize

end Gridplan
