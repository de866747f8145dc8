import Gridplan.Proofs.Layout.Drawable
import Gridplan.Proofs.Optimize.Filters

namespace Gridplan

open Layout

variable {sources : Sources} {op : Operator} {is js : List Plan} {p q r x : Plan}

theorem Expr.columns_eq_nil {e : Expr} (h : e.truthy ≠ true) : e.columns = [] := by
  cases e with
  | raw d => rfl
  | _ => exact absurd rfl h

theorem Optimize.columns_conjunction {c : Option Expr} {e : Expr} {s : List String}
    (hc : ∀ a ∈ c, a.truthy = true → a.columns ⊆ s) (he : e.columns ⊆ s) :
    (conjunction c e).columns ⊆ s := by
  cases c with
  | none => exact he
  | some a =>
    refine List.append_subset.mpr ⟨?_, he⟩
    by_cases ha : a.truthy = true
    · exact hc a rfl ha
    · simp [Expr.columns_eq_nil ha]

/-- Whether a plan has the columns of another one and perhaps more, and rows only if the other one
has some, over the same source. -/
structure Plan.Widens (sources : Sources) (p q : Plan) : Prop where
  columns : p.columns ⊆ q.columns
  vacant : p.isVacant sources = true → q.isVacant sources = true
  source : leftmostSource q = leftmostSource p

theorem Plan.Widens.refl (p : Plan) : Widens sources p p :=
  ⟨List.Subset.refl _, id, rfl⟩

theorem Plan.Widens.trans (h : Widens sources p q) (h' : Widens sources q r) :
    Widens sources p r :=
  ⟨fun _ hn ↦ h'.columns (h.columns hn), fun hv ↦ h'.vacant (h.vacant hv),
    h'.source.trans h.source⟩

theorem Operator.columns_mono {ss ts : List (List String)} (h : List.Forall₂ (· ⊆ ·) ss ts) :
    op.columns ss ⊆ op.columns ts := by
  cases op with
  | filter | sort | limit =>
    match h with
    | .nil => exact List.nil_subset _
    | .cons h .nil => exact h
    | .cons _ (.cons _ _) => exact List.nil_subset _
  | withColumn name e =>
    match h with
    | .nil => exact List.nil_subset _
    | .cons h .nil => exact fun n hn ↦ mem_withName.mpr ((mem_withName.mp hn).imp_left (h ·))
    | .cons _ (.cons _ _) => exact List.nil_subset _
  | window func input output partitionBy orderBy frame =>
    match h with
    | .nil => exact List.nil_subset _
    | .cons h .nil =>
      exact List.append_subset.mpr
        ⟨List.subset_append_of_subset_left _ h, List.subset_append_right ..⟩
    | .cons _ (.cons _ _) => exact List.nil_subset _
  | join leftOn rightOn kind suffixes =>
    match h with
    | .nil | .cons _ .nil => exact List.nil_subset _
    | .cons hl (.cons hr .nil) =>
      exact List.append_subset.mpr ⟨List.subset_append_of_subset_left _ hl,
        List.subset_append_of_subset_right _ (List.filter_subset _ hr)⟩
    | .cons _ (.cons _ (.cons _ _)) => exact List.nil_subset _
  | union =>
    match h with
    | .nil | .cons _ .nil => exact List.nil_subset _
    | .cons hl (.cons _ .nil) => exact hl
    | .cons _ (.cons _ (.cons _ _)) => exact List.nil_subset _
  | _ => exact List.Subset.refl _

theorem Operator.isVacant_mono {vs ws : List Bool}
    (h : List.Forall₂ (fun v w ↦ v = true → w = true) vs ws) (hv : op.isVacant sources vs = true) :
    op.isVacant sources ws = true := by
  cases op with
  | filter =>
    match h, hv with
    | .cons h .nil, hv => exact h hv
  | source => exact hv
  | _ => cases hv

theorem Plan.Widens.node {m m' : Option Nat} (h : List.Forall₂ (Widens sources) is js) :
    Widens sources (.node m op is) (.node m' op js) := by
  refine ⟨?_, ?_, ?_⟩
  · rw [columns_node, columns_node]
    refine Operator.columns_mono ?_
    rw [List.forall₂_map_left_iff, List.forall₂_map_right_iff]
    exact h.imp fun _ _ h ↦ h.columns
  · rw [isVacant_node, isVacant_node]
    refine Operator.isVacant_mono ?_
    rw [List.forall₂_map_left_iff, List.forall₂_map_right_iff]
    exact h.imp fun _ _ h ↦ h.vacant
  · cases op with
    | source => rfl
    | _ =>
      cases h with
      | nil => rfl
      | cons h _ => exact h.source

theorem Operator.columns_filed (op : Operator) (ss : List (List String)) :
    op.filed.columns ss = op.columns ss := by
  cases op with
  | filter | sort | withColumn => unfold columns; split <;> simp_all [filed]
  | _ => rfl

theorem Operator.isVacant_filed (op : Operator) (vs : List Bool) :
    op.filed.isVacant sources vs = op.isVacant sources vs := by
  cases op with
  | filter => unfold isVacant; split <;> simp_all [filed]
  | _ => rfl

theorem Plan.widens_filed (p : Plan) : Widens sources p p.filed := by
  induction p with
  | node m op is ih =>
    have his : Widens sources (.node m op is) (.node m op (is.map filed)) :=
      .node (List.forall₂_map_right_iff.mpr (List.forall₂_same.mpr ih))
    rw [filed_node]
    refine his.trans ⟨?_, ?_, ?_⟩
    · rw [columns_node, columns_node, Operator.columns_filed]
      exact List.Subset.refl _
    · rw [isVacant_node, isVacant_node, Operator.isVacant_filed]
      exact id
    · cases op <;> rfl

theorem Plan.Widens.subset (h : Widens sources p q) {s : List String} (hs : s ⊆ p.columns) :
    s ⊆ q.columns := List.Subset.trans hs h.columns

theorem Plan.Widens.ne_nil (h : Widens sources p q) (hp : p.columns ≠ []) : q.columns ≠ [] := by
  intro hq
  have hsub := h.columns
  rw [hq, List.subset_nil] at hsub
  exact hp hsub

theorem melted_mono {s t idVars : List String} {valueVars : Option (List String)} (h : s ⊆ t)
    (hne : melted s idVars valueVars ≠ []) (hsub : melted s idVars valueVars ⊆ s) :
    melted t idVars valueVars ≠ [] ∧ melted t idVars valueVars ⊆ t := by
  have hle := List.filter_subset (fun n ↦ !idVars.contains n) h
  match valueVars, hne, hsub with
  | none, hne, _ | some [], hne, _ =>
    refine ⟨fun ht ↦ hne (List.subset_nil.mp ?_), List.filter_subset_self _⟩
    exact List.Subset.trans hle (List.subset_nil.mpr ht)
  | some (v :: vs), hne, hsub => exact ⟨hne, fun n hn ↦ h (hsub hn)⟩

theorem windowSuits_mono {s t partitionBy : List String} {func : String} {input : Option String}
    {frame : Datum} (h : s ⊆ t) (hs : windowSuits s func input partitionBy frame) :
    windowSuits t func input partitionBy frame := by
  unfold windowSuits at hs ⊢
  split_ifs at hs ⊢
  all_goals
    obtain ⟨h₁, h₂, n, hn, hmem⟩ := hs
    exact ⟨h₁, h₂, n, hn, h hmem⟩

theorem Operator.Suits.mono (h : op.Suits sources is)
    (hw : List.Forall₂ (Plan.Widens sources) is js) : op.Suits sources js := by
  match op, hw, h with
  | .source .., _, h => exact h
  | .select .., .cons hw .nil, ⟨hne, hnames, hc⟩ =>
    exact ⟨hne, hw.subset hnames, fun e he ht ↦ hw.subset (hc e he ht)⟩
  | .filter _, .cons hw .nil, ⟨hne, he⟩ => exact ⟨hw.ne_nil hne, hw.subset he⟩
  | .join .., .cons hl (.cons hr .nil), ⟨⟨k, hk, hmem⟩, k', hk', hmem'⟩ =>
    exact ⟨⟨k, hk, hl.columns hmem⟩, k', hk', hr.columns hmem'⟩
  | .groupBy .., .cons hw .nil, ⟨hne, hkeys, haggs⟩ =>
    exact ⟨hne, hw.subset hkeys,
      fun a ha ↦ ⟨(haggs a ha).1, fun hf ↦ hw.columns ((haggs a ha).2 hf)⟩⟩
  | .aggregate _, .cons hw .nil, ⟨hne, haggs⟩ =>
    exact ⟨hne, fun a ha ↦ ⟨(haggs a ha).1, hw.columns (haggs a ha).2⟩⟩
  | .sort .., .cons hw .nil, ⟨hne, hkeys, hc⟩ =>
    exact ⟨hw.ne_nil hne, fun k hk ↦ hw.columns (hkeys k hk),
      fun e he ht ↦ hw.subset (hc e he ht)⟩
  | .limit .., .cons hw .nil, hne => exact hw.ne_nil hne
  | .withColumn .., .cons hw .nil, he => exact hw.subset he
  | .union, .cons hl (.cons _ .nil), hne => exact hl.ne_nil hne
  | .pivot .., .cons hw .nil, ⟨name, hi, hname, hcol, hval, hf, hcols, hrows⟩ =>
    -- the numbers of columns and rows are taken from the source, which is the same
    have hsame : ∀ {p q : Plan} (n : String), leftmostSource q = leftmostSource p →
        knownValues sources (some q) n = knownValues sources (some p) n := by
      intro p q n hpq
      simp only [knownValues, Option.bind_some, hpq]
    exact ⟨name, hi, hw.columns hname, hw.columns hcol, hw.columns hval, hf,
      hsame _ hw.source ▸ hcols, hsame _ hw.source ▸ hrows⟩
  | .melt .., .cons hw .nil, ⟨hne, hids, hvars, hsub⟩ =>
    exact ⟨hne, hw.subset hids, melted_mono hw.columns hvars hsub⟩
  | .window .., .cons hw .nil, ⟨hs, hord⟩ =>
    refine ⟨windowSuits_mono hw.columns hs, fun hv hf ↦ ?_⟩
    obtain ⟨hpart, hkeys⟩ := hord (by grind [hw.vacant]) hf
    exact ⟨hw.subset hpart, fun k hk ↦ hw.columns (hkeys k hk)⟩

theorem Operator.Suits.filed (h : op.Suits sources is) : op.filed.Suits sources is := by
  match op, is, h with
  | .select _ c, [p], ⟨hne, hnames, _⟩ =>
    refine ⟨hne, hnames, fun e he _ ↦ ?_⟩
    obtain ⟨a, -, rfl⟩ := Option.mem_map.mp he
    simp
  | .sort _ _ c, [p], ⟨hne, hkeys, _⟩ =>
    refine ⟨hne, hkeys, fun e he _ ↦ ?_⟩
    obtain ⟨a, -, rfl⟩ := Option.mem_map.mp he
    simp
  | .filter e, [p], ⟨hne, _⟩ => exact ⟨hne, by simp⟩
  | .withColumn _ e, [p], _ => exact List.nil_subset _
  | .source .., _, h | .join .., _, h | .groupBy .., _, h | .aggregate _, _, h | .limit .., _, h
  | .union, _, h | .pivot .., _, h | .melt .., _, h | .window .., _, h => exact h

/-- Whether the nodes of a plan suit their inputs. -/
def Plan.Fitting (sources : Sources) : Plan → Prop := Plan.All (Operator.Suits sources)

theorem Plan.fitting_node {m : Option Nat} : Fitting sources (.node m op is) ↔
    op.Suits sources is ∧ ∀ i ∈ is, i.Fitting sources := all_node

theorem Plan.fitting_one {m : Option Nat} : Fitting sources (.node m op [x]) ↔
    op.Suits sources [x] ∧ x.Fitting sources := by
  rw [fitting_node, List.forall_mem_singleton]

theorem Plan.Fitting.filed (h : p.Fitting sources) : p.filed.Fitting sources := by
  refine All.remade filed_node (fun op is hop ↦ hop.filed.mono ?_) h
  exact List.forall₂_map_right_iff.mpr (List.forall₂_same.mpr fun i _ ↦ widens_filed i)

namespace Optimize

open Plan (fitting_one)

def Serves (sources : Sources) (p q : Plan) : Prop :=
  p.Fitting sources → q.Fitting sources ∧ p.Widens sources q

theorem Serves.trans (h : Serves sources p q) (h' : Serves sources q r) : Serves sources p r := by
  intro hp
  obtain ⟨hq, hw⟩ := h hp
  obtain ⟨hr, hw'⟩ := h' hq
  exact ⟨hr, hw.trans hw'⟩

theorem Serves.node {m : Option Nat} (h : List.Forall₂ (Serves sources) is js) :
    Serves sources (.node m op is) (.node m op js) := by
  intro hfit
  obtain ⟨hop, his⟩ := Plan.fitting_node.mp hfit
  have hjs : List.Forall₂ (fun i j ↦ j.Fitting sources ∧ i.Widens sources j) is js :=
    ((List.forall₂_and_left _ _).mpr ⟨his, h⟩).imp fun _ _ h ↦ h.2 h.1
  have hw := hjs.imp fun _ _ h ↦ h.2
  refine ⟨Plan.fitting_node.mpr ⟨hop.mono hw, fun j hj ↦ ?_⟩, .node hw⟩
  obtain ⟨i, -, hi⟩ := exists_of_forall₂ hjs hj
  exact hi.1

theorem Rewrite.one (h : Rewrite op is q) : ∃ x, is = [x] := by
  cases h <;> exact ⟨_, rfl⟩

theorem Rewrite.serves {m : Option Nat} (h : Rewrite op is q) : Serves sources (.node m op is) q := by
  intro hfit
  obtain ⟨y, rfl⟩ := h.one
  obtain ⟨hop, hbelow⟩ := fitting_one.mp hfit
  cases h with
  | @sink e names m' c x href =>
    obtain ⟨⟨hne, hnames, -⟩, hx⟩ := fitting_one.mp hbelow
    have he : e.columns ⊆ x.columns :=
      fun n hn ↦ hnames (href n (Expr.mem_references.mpr hn))
    have hcols : x.columns ≠ [] := fun h ↦ hne (List.subset_nil.mp (h ▸ hnames))
    have hfilter : Plan.Fitting sources (.fresh (.filter e) [x]) :=
      fitting_one.mpr ⟨⟨hcols, he⟩, hx⟩
    refine ⟨fitting_one.mpr ⟨⟨hne, hnames, nofun⟩, hfilter⟩, ?_⟩
    exact ⟨List.Subset.refl names, nofun, rfl⟩
  | both e inner m' x =>
    obtain ⟨⟨hne, hinner⟩, hx⟩ := fitting_one.mp hbelow
    refine ⟨fitting_one.mpr ⟨⟨hne, List.append_subset.mpr ⟨hinner, hop.2⟩⟩, hx⟩, ?_⟩
    exact ⟨List.Subset.refl x.columns, id, rfl⟩
  | outer names names' c c' m' x =>
    obtain ⟨⟨-, hnames, -⟩, hx⟩ := fitting_one.mp hbelow
    refine ⟨fitting_one.mpr ⟨⟨hop.1, List.Subset.trans hop.2.1 hnames, nofun⟩, hx⟩, ?_⟩
    exact ⟨List.Subset.refl names, nofun, rfl⟩
  | cap count side keys cap c m' x =>
    obtain ⟨hsort, hx⟩ := fitting_one.mp hbelow
    exact ⟨fitting_one.mpr ⟨hsort, hx⟩, List.Subset.refl x.columns, nofun, rfl⟩
  | sortIf keys cap c inner m' x =>
    obtain ⟨⟨hne, hinner⟩, hx⟩ := fitting_one.mp hbelow
    obtain ⟨-, hkeys, hc⟩ := hop
    refine ⟨fitting_one.mpr ⟨⟨hne, hkeys, ?_⟩, hx⟩, List.Subset.refl x.columns, nofun, rfl⟩
    rintro e ⟨⟩ -
    exact columns_conjunction hc hinner
  | selectIf names c inner m' x =>
    obtain ⟨⟨-, hinner⟩, hx⟩ := fitting_one.mp hbelow
    obtain ⟨hne, hnames, hc⟩ := hop
    refine ⟨fitting_one.mpr ⟨⟨hne, hnames, ?_⟩, hx⟩, List.Subset.refl names, nofun, rfl⟩
    rintro e ⟨⟩ -
    exact columns_conjunction hc hinner
  | whole => exact ⟨hbelow, hop.2.1, nofun, rfl⟩
  | always => exact ⟨hbelow, List.Subset.refl _, id, rfl⟩
  | again keys keys' cap cap' c c' m' x =>
    obtain ⟨⟨hne, -⟩, hx⟩ := fitting_one.mp hbelow
    refine ⟨fitting_one.mpr ⟨⟨hne, hop.2.1, nofun⟩, hx⟩, ?_⟩
    exact ⟨List.Subset.refl x.columns, nofun, rfl⟩

theorem preserved_serves : Preserved (Serves sources) where
  refl := fun p h ↦ ⟨h, .refl p⟩
  trans := fun _ _ _ ↦ Serves.trans
  rewrite := fun _ _ _ _ _ _ hjs hq ↦ (Serves.node hjs).trans hq.serves
  rebuild := fun _ _ _ _ _ hjs ↦ (Serves.node hjs).trans fun h ↦ ⟨h.filed, Plan.widens_filed _⟩

end Optimize

namespace Layout

variable {s : Progress}

/-- If a plan can be laid out as it is, then what the passes make of it can be laid out exactly if
its conditions can be translated and the inputs of its unions have the same columns. -/
theorem layOut_optimized (hp : p.Built) (hc : p.Coherent) (h : layOut p sources false = .ok s) :
    (∃ s', layOut p sources true = .ok s') ↔
      ∃ q, p.optimize = .ok q ∧ q.All fun op is ↦ op.isLegible = true ∧ op.Agrees is := by
  obtain ⟨q, hq, hd⟩ := (succeeds_layOut hp hc false).mp ⟨s, h⟩
  obtain rfl := Except.ok.inj hq
  have hfit : p.Fitting sources := (Plan.all_and.mp hd).1
  refine (succeeds_layOut hp hc true).trans (exists_congr fun q ↦ and_congr_right fun hq ↦ ?_)
  have hserves : Optimize.Serves sources p q :=
    (Optimize.optimize_preserves Optimize.preserved_serves hp hq).2
  exact Plan.all_and.trans (and_iff_right (hserves hfit).1)

theorem layOut_optimized_mirrored : mirrored.Built ∧ mirrored.Coherent ∧
    (∃ s, layOut mirrored [] false = .ok s) ∧
      ∃ q, mirrored.optimize = .ok q ∧ q.All fun op is ↦ op.isLegible = true ∧ op.Agrees is := by
  obtain ⟨s, hs⟩ := layOut_mirrored false
  exact ⟨built_mirrored, coherent_mirrored, ⟨s, hs⟩,
    (layOut_optimized built_mirrored coherent_mirrored hs).mp (layOut_mirrored true)⟩

def stacked : Plan :=
  let projected (m : Nat) := Plan.node (some m) (.select ["a"] none)
    [.node (some (m + 1)) (.source "t" (some ["a", "b"]) none) []]
  .node (some 0) .union
    [.node (some 1) (.filter (.binary ">" (.column "a") (.literal (.int 0)))) [projected 2],
      projected 4]

/-- The condition goes below the projection, so the union is stored and read back and finds a record
in the place of the condition. -/
theorem layOut_stacked : stacked.Built ∧ (∃ s, layOut stacked [] false = .ok s) ∧
    layOut stacked [] true = .error (.layout (.predicate "dict")) := by
  refine ⟨?_, Outcome.succeeds_of_isOk (by decide +kernel), rfl⟩
  simp [Plan.built_node, stacked, Operator.isTyped, Operator.Accepts,
    Plan.Offers, Plan.schema?, Expr.isFilled, Expr.columns]

-- A projection that seems to keep all columns is dropped, and the inputs of the union differ.
example :
    let source := Plan.node (some 0) (.source "t" (some ["a"]) none) []
    let ranked := Plan.node (some 1) (.window "rank" none "r" [] [⟨"a", .asc⟩] .null) [source]
    let p := Plan.node (some 3) .union [.node (some 2) (.select ["a"] none) [ranked], source]
    (layOut p [] false).isOk = true ∧ (layOut p [] true).isOk = false := by
  decide +kernel

end Layout

end Gridplan
