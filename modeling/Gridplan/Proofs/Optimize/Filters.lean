import Gridplan.Proofs.Optimize.Projections

namespace Gridplan

/-- Whether a condition is an expression proper, and any other expression can be stored. -/
def Operator.isProper : Operator → Bool
  | .filter e => e.isProper
  | op => op.isStorable

theorem Operator.isStorable_of_isProper {op : Operator} (h : op.isProper = true) :
    op.isStorable = true := by
  cases op with
  | filter e => exact Expr.isStorable_of_isProper h
  | _ => exact h

namespace Plan

def base : Plan → Plan
  | .node _ (.filter _) [x] => base x
  | p => p

def movable (op : Operator) (is : List Plan) : Bool :=
  op.kind == .filter && is.any fun x ↦ x.kind == .filter || x.kind == .select

/-- Whether a run of two or more filters stands over a plan, not a projection, in which a filter
moves: the lowest condition is then stored before the others are merged with it. -/
def mixes : Plan → Bool
  | .node _ (.filter _) [x] => x.kind == .filter && x.base.kind != .select && x.base.any movable
  | _ => false

def doubles : Plan → Bool
  | .node _ op is => op.kind == .select && is.any (·.base.kind == .select)

def above (test : Plan → Bool) (op : Operator) (is : List Plan) : Bool :=
  op.kind != .filter && is.any test

/-- The number of projections, and the number of filters and of pairs of a filter and a projection
somewhere below it, from those of the inputs. -/
def weight (k : Kind) (inputs : List (Nat × Nat)) : Nat × Nat :=
  ((inputs.map (·.1)).sum + (k == .select).toNat,
    (inputs.map (·.2)).sum + if k = .filter then (inputs.map (·.1)).sum + 1 else 0)

/-- A plan in which filters can be moved: it is plain, its conditions are expressions, and each of
them is true or false in every row of the relation below its run of filters. -/
structure Regular (I : Interpretation) (p : Plan) : Prop where
  plain : p.Plain
  proper : p.All fun op _ ↦ op.isProper = true
  decides : p.All fun op is ↦ ∀ e, op = .filter e → ∀ x ∈ is, ∀ R, x.base.meaning I = some R →
    R.Decides I.toAlgebra e

variable {I : Interpretation} {m : Option Nat} {op : Operator} {is : List Plan} {p q x : Plan}
  {e : Expr} {R : Relation}

theorem base_eq_self (h : p.kind ≠ .filter) : p.base = p := by
  unfold base
  split
  · exact absurd rfl h
  · rfl

theorem Plain.eq_filter (h : (Plan.node m op is).Plain) (hk : op.kind = .filter) :
    ∃ e x, op = .filter e ∧ is = [x] := by
  obtain ⟨⟨-, ht, ha⟩, -⟩ := plain_node.mp h
  cases op with
  | filter e =>
    obtain ⟨x, rfl⟩ := List.length_eq_one_iff.mp ha.length
    exact ⟨e, x, rfl, rfl⟩
  | loose => cases ht
  | _ => cases hk

theorem mixes_eq_false (h : p.kind ≠ .filter) : p.mixes = false := by
  unfold mixes
  split
  · exact absurd rfl h
  · rfl

theorem movable_of_mixes (h : p.mixes = true) : movable p.op p.inputs = true := by
  unfold mixes at h
  split at h
  · simp only [Bool.and_eq_true, beq_iff_eq] at h
    simp [movable, Plan.op, Plan.inputs, Operator.kind, h.1.1]
  · cases h

theorem Regular.input (h : Regular I (.node m op is)) (hq : q ∈ is) : Regular I q where
  plain := (plain_node.mp h.plain).2 q hq
  proper := (all_node.mp h.proper).2 q hq
  decides := (all_node.mp h.decides).2 q hq

theorem Regular.storable (h : Regular I p) : p.isStorable = true :=
  isStorable_iff.mpr (h.proper.mono fun _ _ ↦ Operator.isStorable_of_isProper)

end Plan

namespace Optimize

open Plan

variable {I : Interpretation} {m : Option Nat} {op : Operator} {is : List Plan} {p x : Plan}
  {e : Expr} {R : Relation}

/-- What becomes of a run of filters that is not over a projection: one filter over the same
relation, its condition proper as long as nothing has moved below. -/
def Gathered (I : Interpretation) (p q : Plan) : Prop :=
  ∃ m e x S, q = .node m (.filter e) [x] ∧ x.isStorable = true ∧ p.base.meaning I = some S ∧
    x.meaning I = some S ∧ S.Decides I.toAlgebra e.read ∧ e.isProper = !p.base.any movable

structure Pushed (I : Interpretation) (p : Plan) : Prop where
  finishes : ∃ r, step pushFilters p = .ok r
  changes : (changed pushFilters p).isSome = p.any movable
  plain : (after pushFilters p).Plain
  storable : (after pushFilters p).isStorable = !p.mixes
  schema : (after pushFilters p).schema? = p.schema?
  meaning : (after pushFilters p).meaning I = p.meaning I
  kind : (after pushFilters p).kind = if p.base.kind = .select then .select else p.kind
  run : p.kind = .filter → p.base.kind ≠ .select → Gathered I p (after pushFilters p)
  selects : ((after pushFilters p).fold weight).1 = (p.fold weight).1
  lighter : ((after pushFilters p).fold weight).2 + (p.any movable).toNat ≤ (p.fold weight).2
  here : nested (after pushFilters p).op (after pushFilters p).inputs = p.doubles
  below : (after pushFilters p).inputs.any (Plan.any nested) = p.any (above doubles)

theorem Pushed.same (h : Pushed I p) (hp : p.Plain) :
    ∀ q, changed pushFilters p = some q → q.same p = .ok false := by
  intro q hq
  have hafter : after pushFilters p = q := by rw [after, hq]; rfl
  have hany : p.any movable = true := by rw [← h.changes, hq]; rfl
  have hlt := h.lighter
  have hplain := h.plain
  rw [hafter] at hlt hplain
  rw [hany, Bool.toNat_true] at hlt
  exact same_eq_false weight hplain.dataFree hp.dataFree fun heq ↦ by rw [heq] at hlt; omega

theorem Pushed.stands (h : Pushed I p) (hm : p.mixes = false) : Stands I p (after pushFilters p) :=
  ⟨h.plain, by rw [h.storable, hm]; rfl, h.schema, h.meaning⟩

theorem Pushed.step_eq (h : Pushed I x) (hx : x.Plain)
    (hrule : pushFilters op [after pushFilters x] = .ok (some p)) :
    step pushFilters (.node m op [x]) = .ok (some p) := by
  rw [step_node (by simpa using h.finishes) (by simpa using h.same hx), List.map_singleton, hrule]
  rfl

theorem Pushed.kind_eq_select (h : Pushed I p) :
    (after pushFilters p).kind = .select ↔ p.base.kind = .select := by
  rw [h.kind]
  constructor
  · intro hk
    by_contra hb
    rw [if_neg hb] at hk
    rw [base_eq_self (by rw [hk]; decide), hk] at hb
    exact hb rfl
  · exact fun hb ↦ if_pos hb

theorem Pushed.any_nested (h : Pushed I p) :
    (after pushFilters p).any nested = (p.doubles || p.any (above doubles)) := by
  rw [any_eq, h.here, h.below]

theorem pushFilters_eq_none (h : movable op is = false) : pushFilters op is = .ok none := by
  unfold pushFilters
  split
  · simp [movable, Operator.kind, Plan.kind, Plan.op] at h
  · simp [movable, Operator.kind, Plan.kind, Plan.op] at h
  · rfl

theorem pushed_other (hr : Regular I (.node m op is)) (hop : op.kind ≠ .filter)
    (hin : ∀ q ∈ is, Pushed I q) (hmix : is.any mixes = false) : Pushed I (.node m op is) := by
  have hps := (plain_node.mp hr.plain).2
  have hmixes : ∀ q ∈ is, q.mixes = false := by simpa using hmix
  have hstands : ∀ q ∈ is, Stands I q (after pushFilters q) :=
    fun q hq ↦ (hin q hq).stands (hmixes q hq)
  have hkind : (op.kind == .filter) = false := by simpa using hop
  have hmov : ∀ js, movable op js = false := fun js ↦ by rw [movable, hkind, Bool.false_and]
  have hreb := rebuilt (fun q hq ↦ (hin q hq).finishes) (fun q hq ↦ (hin q hq).same (hps q hq))
    (pushFilters_eq_none (hmov _)) hr.plain hr.storable hstands
  have hnode := hreb.stands hr.plain (isStorable_op hr.storable) hstands
  have hany : (Plan.node m op is).any movable = is.any (Plan.any movable) := by
    rw [any_node, hmov, Bool.false_or]
  have hbase : (Plan.node m op is).base = .node m op is := base_eq_self hop
  have hself : (Plan.node m op is).mixes = false := mixes_eq_false hop
  refine ⟨hreb.finishes, ?_, hnode.plain, ?_, hnode.schema, hnode.meaning, ?_, ?_, ?_, ?_, ?_, ?_⟩
  · rw [hreb.changes, hany]
    exact list_any_congr fun q hq ↦ (hin q hq).changes
  · rw [hnode.storable, hself]
    rfl
  · rw [hreb.kind, hbase]
    split
    · assumption
    · rfl
  · exact fun hk ↦ absurd hk hop
  · rw [hreb.fold, fold_node]
    simp only [weight, List.map_map]
    congr 2
    exact List.map_congr_left fun q hq ↦ (hin q hq).selects
  · rw [hreb.fold, fold_node, hany]
    have := sum_map_le fun q hq ↦ (hin q hq).lighter
    simp only [weight, List.map_map, if_neg hop, add_zero]
    exact this
  · rw [hreb.here nested_filed, nested, doubles, List.any_map]
    refine congrArg _ (list_any_congr fun q hq ↦ ?_)
    rw [Function.comp_apply, Bool.eq_iff_iff, beq_iff_eq, beq_iff_eq, (hin q hq).kind_eq_select]
  · have hor : (is.any fun q ↦ (after pushFilters q).any nested) =
        is.any fun q ↦ q.doubles || q.any (above doubles) :=
      list_any_congr fun q hq ↦ (hin q hq).any_nested
    have hne : (op.kind != .filter) = true := by simpa using hop
    rw [hreb.below nested_filed, hor, any_node, above, hne, Bool.true_and, Bool.eq_iff_iff]
    simp only [List.any_eq_true, Bool.or_eq_true, and_or_left, exists_or]

section Filter

variable (hr : Regular I (.node m (.filter e) [x]))
  (hm : (Plan.node m (.filter e) [x]).meaning I = some R) (hx : Pushed I x)

include hr hm hx

theorem pushed_still (hf : x.kind ≠ .filter) (hs : x.kind ≠ .select) :
    Pushed I (.node m (.filter e) [x]) := by
  have hplain := (plain_node.mp hr.plain).2 x (by simp)
  have hxbase : x.base = x := base_eq_self hf
  have hbase : (Plan.node m (.filter e) [x]).base = x := hxbase
  have hxmix := mixes_eq_false hf
  have hmix : (Plan.node m (.filter e) [x]).mixes = false := by simp [mixes, hf]
  have hxkind : (after pushFilters x).kind = x.kind := by
    rw [hx.kind, hxbase, if_neg hs]
  have hin : ∀ q ∈ [x], Pushed I q := by simpa using hx
  have hstands : ∀ q ∈ [x], Stands I q (after pushFilters q) := by simpa using hx.stands hxmix
  have hmov : movable (.filter e) [x] = false := by simp [movable, hf, hs]
  have hrule : pushFilters (.filter e) ([x].map (after pushFilters)) = .ok none := by
    refine pushFilters_eq_none ?_
    simp [movable, hxkind, hf, hs]
  have hreb := rebuilt (fun q hq ↦ (hin q hq).finishes)
    (fun q hq ↦ (hin q hq).same ((plain_node.mp hr.plain).2 q hq)) hrule hr.plain hr.storable
    hstands
  have hnode := hreb.stands hr.plain (isStorable_op hr.storable) hstands
  have hany : (Plan.node m (.filter e) [x]).any movable = x.any movable := by
    simp [any_node, hmov]
  refine ⟨hreb.finishes, ?_, hnode.plain, ?_, hnode.schema, hnode.meaning, ?_, ?_, ?_, ?_, ?_, ?_⟩
  · rw [hreb.changes, hany, ← hx.changes]
    simp
  · rw [hnode.storable, hmix]
    rfl
  · rw [hreb.kind, hbase, if_neg hs]
    rfl
  · intro _ _
    obtain ⟨S, hS, -⟩ := meaning_filter.mp hm
    have hdec : S.Decides I.toAlgebra e :=
      (all_node.mp hr.decides).1 e rfl x (by simp) S (by rw [hxbase]; exact hS)
    have hproper : e.isProper = true := (all_node.mp hr.proper).1
    have hchange : (List.any [x] fun q ↦ (changed pushFilters q).isSome) = x.any movable := by
      simpa using hx.changes
    have hread := Expr.read_of_isProper e hproper
    have hstore := (hx.stands hxmix).storable
    have hres := hreb.result
    rw [hchange] at hres
    rw [hres, Gathered, hbase]
    cases x.any movable with
    | false =>
      exact ⟨m, e, _, S, rfl, hstore, hS, hx.meaning.trans hS, by rwa [hread], hproper⟩
    | true =>
      refine ⟨none, e.filed, (after pushFilters x).filed, S, ?_, isStorable_filed _, hS, ?_, ?_,
        rfl⟩
      · rw [if_pos rfl, filed_node]
        rfl
      · rw [meaning_filed hstore, hx.meaning, hS]
      · rwa [Expr.read_filed (Expr.isStorable_of_isProper hproper), hread]
  · rw [hreb.fold, fold_node]
    simp [weight, hx.selects]
  · rw [hreb.fold, fold_node, hany]
    have hl := hx.lighter
    simp [weight, hx.selects, Operator.kind]
    omega
  · rw [hreb.here nested_filed]
    rfl
  · rw [hreb.below nested_filed, any_node, above]
    have hd : x.doubles = false := by
      obtain ⟨m', op', is'⟩ := x
      simp [doubles]
      intro h
      exact absurd h hs
    simp [hx.any_nested, hd, Operator.kind]

theorem pushed_below (hs : x.base.kind = .select) : Pushed I (.node m (.filter e) [x]) := by
  have hproper : e.isProper = true := (all_node.mp hr.proper).1
  have hread := Expr.read_of_isProper e hproper
  have hplain := (plain_node.mp hr.plain).2 x (by simp)
  have hxmix : x.mixes = false := by
    unfold mixes
    split
    · rename_i y
      have : y.base.kind = .select := hs
      simp [this]
    · rfl
  obtain ⟨m', names, y, hafter⟩ := hx.plain.eq_select (hx.kind_eq_select.mpr hs)
  have hstands := hx.stands hxmix
  have hselects := hx.selects
  have hlighter := hx.lighter
  have hbelow := hx.below
  rw [hafter] at hstands hselects hlighter hbelow
  obtain ⟨⟨-, -, hne, -⟩, hys⟩ := plain_node.mp hstands.plain
  have hy : y.Plain := hys y (by simp)
  have hystore : y.isStorable = true := by
    simpa [isStorable_node, Operator.isStorable] using hstands.storable
  -- the rows of the projection that pass are the projections of rows that pass below it
  obtain ⟨S, hS, hres⟩ := meaning_filter.mp hm
  obtain ⟨T, hT, hproj⟩ := meaning_select.mp (hstands.meaning.trans hS)
  rw [hread] at hres
  obtain ⟨U, hU, hUproj⟩ := Relation.restrict_project hproj hres
  have hcols : ∀ n ∈ e.columns, n ∈ T.columns := (Relation.restrict_eq_some.mp hU).1.1
  have hnames : ∀ n ∈ e.columns, n ∈ names := by
    obtain ⟨-, rfl⟩ := Relation.project_eq_some.mp hproj
    exact (Relation.restrict_eq_some.mp hres).1.1
  have hfilled : e.isFilled = true := by
    cases e with
    | raw => cases hproper
    | _ => rfl
  have haccepts : (Operator.filter e).Accepts [y] := ⟨hfilled, hy.offers hT hcols⟩
  have hselect : (Operator.select names none).Accepts [fresh (.filter e) [y]] :=
    ⟨hne, fun _ h ↦ by cases h⟩
  have hmake : Plan.make (.filter e) [y] = .ok (fresh (.filter e) [y]) :=
    (make_eq_ok rfl (by simpa using isTyped_of_built hy.built)).mpr ⟨haccepts, rfl⟩
  have hmake' : Plan.make (.select names none) [fresh (.filter e) [y]] =
      .ok (fresh (.select names none) [fresh (.filter e) [y]]) :=
    (make_eq_ok rfl (by simp [fresh, Plan.op, Operator.isTyped])).mpr ⟨hselect, rfl⟩
  have hcover : e.references.all names.contains = true := by
    rw [List.all_eq_true]
    intro n hn
    simpa using hnames n (Expr.mem_references.mp hn)
  have hstep : step pushFilters (.node m (.filter e) [x]) =
      .ok (some (fresh (.select names none) [fresh (.filter e) [y]])) :=
    hx.step_eq hplain (by simp [hafter, pushFilters, hcover, hmake, hmake'])
  have hany : (Plan.node m (.filter e) [x]).any movable = true := by
    have hk : x.kind = .filter ∨ x.kind = .select := by
      by_contra hk
      push Not at hk
      rw [base_eq_self hk.1] at hs
      exact hk.2 hs
    simp [any_node, movable, Operator.kind, hk]
  have hbase : (Plan.node m (.filter e) [x]).base.kind = .select := hs
  refine ⟨⟨_, hstep⟩, (isSome_changed hstep).trans hany.symm, ?_, ?_, ?_, ?_, ?_, ?_, ?_, ?_, ?_,
    ?_⟩ <;> rw [after_eq hstep]
  · refine plain_node.mpr ⟨⟨rfl, rfl, hselect⟩, List.forall_mem_singleton.mpr ?_⟩
    exact plain_node.mpr ⟨⟨rfl, rfl, haccepts⟩, List.forall_mem_singleton.mpr hy⟩
  · simp [fresh, isStorable_node, Operator.isStorable, Expr.isStorable_of_isProper hproper, hystore,
      mixes, hs]
  · rfl
  · rw [hm]
    exact meaning_select.mpr ⟨U, meaning_filter.mpr ⟨T, hT, by rwa [hread]⟩, hUproj⟩
  · rw [if_pos hbase]
    rfl
  · exact fun _ hb ↦ absurd hbase hb
  · simp [fresh, fold_node, weight, Operator.kind] at hselects ⊢
    exact hselects
  · rw [hany]
    simp [fresh, fold_node, weight, Operator.kind] at hselects hlighter ⊢
    omega
  · rfl
  · rw [any_node]
    have hrule : nested (.filter e) [y] = false := rfl
    simpa [fresh, Plan.inputs, any_node, hrule, above, Operator.kind] using hbelow

theorem pushed_onto (hf : x.kind = .filter) (hs : x.base.kind ≠ .select) :
    Pushed I (.node m (.filter e) [x]) := by
  have hproper : e.isProper = true := (all_node.mp hr.proper).1
  have hread := Expr.read_of_isProper e hproper
  have hplain := (plain_node.mp hr.plain).2 x (by simp)
  obtain ⟨m', d, y, T, hafter, hystore, hbT, hT, hdec, hdproper⟩ := hx.run hf hs
  have hxplain := hx.plain
  have hmeaning := hx.meaning
  have hselects := hx.selects
  have hlighter := hx.lighter
  have hbelow := hx.below
  rw [hafter] at hxplain hmeaning hselects hlighter hbelow
  obtain ⟨⟨-, -, -, hoffers⟩, hys⟩ := plain_node.mp hxplain
  have hy : y.Plain := hys y (by simp)
  obtain ⟨S, hS, hres⟩ := meaning_filter.mp hm
  obtain ⟨T', hT', hres'⟩ := meaning_filter.mp (hmeaning.trans hS)
  obtain rfl : T = T' := Option.some.inj (hT.symm.trans hT')
  have hdecide : T.Decides I.toAlgebra e := (all_node.mp hr.decides).1 e rfl x (by simp) T hbT
  obtain ⟨hboth, hbothdec⟩ := Relation.restrict_conj hdec (by rwa [hread]) hres' hres
  have haccepts : (Operator.filter (d.conj e)).Accepts [y] := by
    refine ⟨rfl, fun schema hschema n hn ↦ ?_⟩
    rcases List.mem_append.mp hn with hn | hn
    · exact hoffers schema hschema n hn
    · refine hy.offers hT (fun k hk ↦ ?_) schema hschema n hn
      refine (Relation.restrict_eq_some.mp hboth).1.1 k (List.mem_append.mpr (.inr ?_))
      rwa [hread]
  have hmake : Plan.make (.filter (d.conj e)) [y] = .ok (fresh (.filter (d.conj e)) [y]) :=
    (make_eq_ok rfl (by simpa using isTyped_of_built hy.built)).mpr ⟨haccepts, rfl⟩
  have hstep : step pushFilters (.node m (.filter e) [x]) =
      .ok (some (fresh (.filter (d.conj e)) [y])) :=
    hx.step_eq hplain (by simp [hafter, pushFilters, hmake])
  have hany : (Plan.node m (.filter e) [x]).any movable = true := by
    simp [any_node, movable, Operator.kind, hf]
  have hbase : (Plan.node m (.filter e) [x]).base = x.base := rfl
  have hmixes : (Plan.node m (.filter e) [x]).mixes = x.base.any movable := by
    simp [mixes, hf, hs]
  have hcproper : (d.conj e).isProper = !x.base.any movable := by
    simp [Expr.conj, Expr.isProper, hdproper, hproper]
  refine ⟨⟨_, hstep⟩, (isSome_changed hstep).trans hany.symm, ?_, ?_, ?_, ?_, ?_, ?_, ?_, ?_, ?_,
    ?_⟩ <;> rw [after_eq hstep]
  · exact plain_node.mpr ⟨⟨rfl, rfl, haccepts⟩, List.forall_mem_singleton.mpr hy⟩
  · rw [hmixes, ← hcproper, Bool.eq_iff_iff]
    simp [fresh, isStorable_node, Operator.isStorable, hystore, Expr.isStorable, Expr.conj]
  · rfl
  · rw [hm]
    exact meaning_filter.mpr ⟨T, hT, hboth⟩
  · rw [hbase, if_neg hs]
    rfl
  · exact fun _ _ ↦ ⟨none, d.conj e, y, T, rfl, hystore, hbT, hT, hbothdec, hcproper⟩
  · simp [fresh, fold_node, weight, Operator.kind] at hselects ⊢
    exact hselects
  · rw [hany]
    simp [fresh, fold_node, weight, Operator.kind] at hselects hlighter ⊢
    omega
  · rfl
  · rw [any_node]
    simpa [fresh, Plan.inputs, above, Operator.kind] using hbelow

theorem pushed_filter : Pushed I (.node m (.filter e) [x]) := by
  by_cases hs : x.base.kind = .select
  · exact pushed_below hr hm hx hs
  · by_cases hf : x.kind = .filter
    · exact pushed_onto hr hm hx hf hs
    · exact pushed_still hr hm hx hf (base_eq_self hf ▸ hs)

end Filter

theorem stuck_other (hr : Regular I (.node m op is)) (hop : op.kind ≠ .filter)
    (hin : ∀ q ∈ is, Pushed I q) (hmix : is.any mixes = true) :
    step pushFilters (.node m op is) = .error .member := by
  have hps := (plain_node.mp hr.plain).2
  obtain ⟨q, hq, hqmix⟩ := List.any_eq_true.mp hmix
  have hchange : (is.all fun q ↦ (changed pushFilters q).isNone) = false := by
    have hsome : (changed pushFilters q).isSome = true := by
      rw [(hin q hq).changes, any_eq, movable_of_mixes hqmix, Bool.true_or]
    rw [List.all_eq_false]
    exact ⟨q, hq, by simpa [Option.isSome_iff_ne_none] using hsome⟩
  have hstore : (is.map (after pushFilters)).all isStorable = false := by
    rw [List.all_map, List.all_eq_false]
    refine ⟨q, hq, ?_⟩
    rw [Function.comp_apply, (hin q hq).storable, hqmix]
    exact Bool.false_ne_true
  have hbuilt : ∀ q ∈ is.map (after pushFilters), q.Built := by
    intro q hq
    obtain ⟨r, hr, rfl⟩ := List.mem_map.mp hq
    exact (hin r hr).plain.built
  have hrule : pushFilters op (is.map (after pushFilters)) = .ok none := by
    refine pushFilters_eq_none ?_
    simp [movable, hop]
  rw [step_node (fun q hq ↦ (hin q hq).finishes) fun q hq ↦ (hin q hq).same (hps q hq), hrule,
    Outcome.ok_bind, hchange, withInputs_error hr.plain.built hbuilt (.inr hstore)]
  rfl

/-- Moving filters fails exactly where a run of filters that mixes stands below another operator;
otherwise it keeps the meaning of the plan. -/
theorem pushed (hr : Regular I p) (hm : p.meaning I = some R) :
    (p.any (above mixes) = true → step pushFilters p = .error .member) ∧
      (p.any (above mixes) = false → Pushed I p) := by
  induction p generalizing R with
  | node m op is ih =>
    have hin : ∀ q ∈ is, (q.any (above mixes) = true → step pushFilters q = .error .member) ∧
        (q.any (above mixes) = false → Pushed I q) := by
      intro q hq
      obtain ⟨S, hS⟩ := meaning_of_mem hm hq
      exact ih q hq (hr.input hq) hS
    cases hbelow : is.any (Plan.any (above mixes)) with
    | true =>
      have herror : step pushFilters (.node m op is) = .error .member := by
        obtain ⟨q, hq, hstuck⟩ := List.any_eq_true.mp hbelow
        refine step_node_error (fun q hq ↦ ?_) ⟨q, hq, (hin q hq).1 hstuck⟩
        cases hs : q.any (above mixes) with
        | true => exact .inr ((hin q hq).1 hs)
        | false => exact .inl ((hin q hq).2 hs).finishes
      refine ⟨fun _ ↦ herror, fun h ↦ ?_⟩
      rw [any_node, hbelow, Bool.or_true] at h
      cases h
    | false =>
      have hpushed : ∀ q ∈ is, Pushed I q := fun q hq ↦
        (hin q hq).2 (by simpa using List.any_eq_false.mp hbelow q hq)
      rw [any_node, hbelow, Bool.or_false]
      by_cases hop : op.kind = .filter
      · have habove : above mixes op is = false := by simp [above, hop]
        rw [habove]
        refine ⟨fun h ↦ absurd h Bool.false_ne_true, fun _ ↦ ?_⟩
        obtain ⟨e, x, rfl, rfl⟩ := hr.plain.eq_filter hop
        exact pushed_filter hr hm (hpushed x (by simp))
      · have habove : above mixes op is = is.any mixes := by simp [above, hop]
        rw [habove]
        exact ⟨stuck_other hr hop hpushed, pushed_other hr hop hpushed⟩

end Optimize

end Gridplan
