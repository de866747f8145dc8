import Gridplan.Proofs.Layout.Grids

namespace Gridplan

open Layout (Sources rowCount)

variable {op : Operator}

/-- The number of rows of a node that stays inside its grid, if it does, from those of its inputs.
Only rows that are passed on or capped are recorded where they end. -/
def Operator.snug (sources : Sources) (op : Operator) (depths : List (Option Nat)) : Option Nat :=
  match op, depths with
  | .source id schema data, _ =>
    if isTabular sources (.source id schema data) then
      some (rowCount ((sources.lookup id).getD (.list [])))
    else none
  | .filter _, [some n] => if 0 < n then some n else none
  | .sort _ (some cap) _, [some n] => if 0 < cap.toNat ∧ cap.toNat ≤ n then some cap.toNat else none
  | _, _ => none

theorem Operator.snug_of_not_isExact {sources : Sources} (h : op.isExact = false)
    (depths : List (Option Nat)) : op.snug sources depths = none := by
  cases op with
  | source | filter | sort => cases h
  | _ => rfl

namespace Plan

mutual

/-- The number of rows of a plan that stays inside its grids, if it does. -/
def snug (sources : Sources) : Plan → Option Nat
  | .node _ op is => op.snug sources (snugList sources is)

def snugList (sources : Sources) : List Plan → List (Option Nat)
  | [] => []
  | p :: ps => snug sources p :: snugList sources ps

end

theorem snug_node (sources : Sources) (m : Option Nat) (op : Operator) (is : List Plan) :
    snug sources (.node m op is) = op.snug sources (is.map (snug sources)) := by
  rw [snug, eq_map_of_cons (g := snugList sources) rfl fun _ _ ↦ rfl]

end Plan

namespace Layout

open Formula
open Outcome (Ensures bind_eq_ok ok_bind)

variable {counter rows last : Nat} {sheet : String} {schema : List String} {es : List Step}
  {good : Ref → Prop} {b : Block} {P : Placement} {sources : Sources} {s : Progress}

variable {m : Option Nat} {i : Plan}

/-- Whether a cell is written or a relation recorded that is outside the grid of its sheet. -/
inductive Spills (s : Progress) : Prop
  | cell {e : Step} {c : Int × Int} {rows cols : Int} (he : e ∈ s.edits) (hc : c ∈ e.cells)
      (hgrid : .create e.sheet (.int rows) cols ∈ s.edits) (hout : rows ≤ c.1 ∨ cols ≤ c.2)
  | block {b : Block} {rows cols : Int} (hb : b ∈ s.blocks)
      (hgrid : .create b.sheet (.int rows) cols ∈ s.edits) (hout : rows ≤ b.range.rowEnd)

theorem Spills.add (h : Spills s) (m : Option Nat) (P : Placement) : Spills (s.add m P) := by
  have hold : s.edits ⊆ (s.add m P).edits := List.subset_append_left ..
  cases h with
  | cell he hc hgrid hout => exact .cell (hold he) hc (hold hgrid) hout
  | block hb hgrid hout => exact .block (List.mem_append_left _ hb) (hold hgrid) hout

theorem grid_unique (hn : (es.filterMap Edit.created).Nodup) {r r' : Number} {c c' : Int}
    (h : .create sheet r c ∈ es) (h' : .create sheet r' c' ∈ es) : r = r' ∧ c = c' := by
  by_contra hne
  have hapart : es.Pairwise fun d e ↦ ∀ n, d.created = some n → ∀ m, e.created = some m → n ≠ m :=
    List.pairwise_filterMap.mp hn
  have hsymm : Std.Symm fun d e : Step ↦
      ∀ n, d.created = some n → ∀ m, e.created = some m → n ≠ m :=
    ⟨fun d e hde n hn m hm hnm ↦ hde m hm n hn hnm.symm⟩
  refine hapart.forall h h' (fun heq ↦ hne ?_) sheet rfl sheet rfl rfl
  simpa using heq

theorem Spills.not_fit (h : Spills s) (hn : (s.edits.filterMap Edit.created).Nodup) : ¬Fit 0 s := by
  intro hfit
  cases h with
  | cell he hc hgrid hout =>
    obtain ⟨rows, cols, hmem, -, hrow, -, hcol⟩ := (hfit.edits _ he).cells _ hc
    obtain ⟨hrows, rfl⟩ := grid_unique hn hgrid hmem
    obtain rfl := Number.int.inj hrows
    omega
  | block hb hgrid hout =>
    obtain ⟨rows, cols, hmem, -, hrow, -, hcol⟩ := hfit.blocks _ hb
    obtain ⟨hrows, rfl⟩ := grid_unique hn hgrid hmem
    obtain rfl := Number.int.inj hrows
    omega

theorem Ends.spills {before : List Part} (h : Ends before good sheet rows last schema P)
    (hlast : rows ≤ last) (s : Progress) (m : Option Nat) : Spills (s.add m P) := by
  refine .block (b := P.block) (by simp [Progress.add]) (List.mem_append_right _ h.created) ?_
  rw [h.block.last]
  exact_mod_cast hlast

theorem join_spills {d : Sides} (hl : Rooted d.left) (hr : Rooted d.right) (kind : JoinKind)
    (m : Option Nat) : Ensures (join counter kind d) fun P ↦ Spills (s.add m P) := by
  cases kind with
  | left => exact (leftJoin_drawn hl).mono fun P h ↦ h.spills le_rfl s m
  | right => exact (rightJoin_drawn hr).mono fun P h ↦ h.spills le_rfl s m
  | inner =>
    refine (innerJoin_drawn hl).mono fun P h ↦ ?_
    obtain ⟨J, first, -, -, hends⟩ := h
    exact hends.spills le_rfl s m
  | outer =>
    refine (outerJoin_drawn hl hr).mono fun P h ↦ ?_
    obtain ⟨J, A, first, second, -, -, -, -, hends⟩ := h
    exact hends.spills le_rfl s m

theorem placeNode_spills (ht : op.isTyped = true) (hop : op.isExact = false) (is : List Plan)
    {blocks : List Block} (hblocks : ∀ b ∈ blocks, Rooted b) (m : Option Nat) :
    Ensures (placeNode sources s.counter op is blocks) fun P ↦ Spills (s.add m P) := by
  refine (placeNode_shaped sources ht is hblocks).mono fun P hP ↦ ?_
  cases hP with
  | source => cases hop
  | join hbs h =>
    subst hbs
    exact join_spills (hblocks _ (by simp)) (hblocks _ (by simp)) _ m P h
  | pivot _ h =>
    obtain ⟨name, t, body, rows, cols, hedits, -, -, hsheet, -, -, hlast, -⟩ :=
      pivot_drawn _ _ _ _ _ _ P h
    have hgrid : .create P.block.sheet (.int (rows + 1)) (cols + 1) ∈ P.edits := by
      simp [hedits, hsheet, Part.edits]
    exact .block (by simp [Progress.add]) (List.mem_append_right _ hgrid) (by omega)
  | sole _ _ _ hfull _ hends => exact hends.spills (hfull hop) s m

/-- What it means for a plan laid out on its own that its rows stay inside the grids. -/
structure Tight (sources : Sources) (p : Plan) (b : Block) (s : Progress) : Prop where
  fit : ∀ n, p.snug sources = some n → Fit 0 s ∧ Seated 0 s.edits b ∧ b.range.rowEnd = n
  spills : p.snug sources = none → Spills s

theorem placePlan_start {is : List Plan} {x : Block × Progress} :
    placePlan sources (.node m op is) {} = .ok x ↔
      ∃ bs t P, placeInputs sources is {} = .ok (bs, t) ∧
      placeNode sources t.counter op is bs = .ok P ∧ x = (P.block, t.add m P) := by
  have hfind : Progress.find {} m = none := by cases m <;> rfl
  rw [placePlan, hfind]
  simp only [bind_eq_ok, Outcome.pure_eq, Except.ok.injEq, Prod.exists]
  constructor
  · rintro ⟨bs, t, hinputs, P, hP, rfl⟩
    exact ⟨bs, t, P, hinputs, hP, rfl⟩
  · rintro ⟨bs, t, P, hinputs, hP, rfl⟩
    exact ⟨bs, t, hinputs, P, hP, rfl⟩

theorem placeInputs_single {x : List Block × Progress} :
    placeInputs sources [i] {} = .ok x ↔
      ∃ b t, placePlan sources i {} = .ok (b, t) ∧ x = ([b], t) := by
  simp only [placeInputs, bind_eq_ok, Outcome.pure_eq, ok_bind, Except.ok.injEq,
    Prod.exists]
  constructor
  · rintro ⟨b, t, hplan, rfl⟩
    exact ⟨b, t, hplan, rfl⟩
  · rintro ⟨b, t, hplan, rfl⟩
    exact ⟨b, t, hplan, rfl⟩

theorem Tight.of_some {p : Plan} {n : Nat} (h : p.snug sources = some n) (hfit : Fit 0 s)
    (hseat : Seated 0 s.edits b) (hdepth : b.range.rowEnd = n) : Tight sources p b s where
  fit := fun k hk ↦ ⟨hfit, hseat, hdepth.trans (Option.some.inj (h.symm.trans hk))⟩
  spills := fun hnone ↦ absurd (h.symm.trans hnone) (by simp)

theorem Tight.of_none {p : Plan} (h : p.snug sources = none) (hspills : Spills s) :
    Tight sources p b s where
  fit := fun k hk ↦ absurd (h.symm.trans hk) (by simp)
  spills := fun _ ↦ hspills

theorem source_tight (id : String) (schema : Option (List String)) (data : Option Frame)
    (m : Option Nat) :
    Ensures (source 0 schema ((sources.lookup id).getD (.list []))) fun P ↦
      Tight sources (.node m (.source id schema data) []) P.block (({} : Progress).add m P) := by
  intro P hP
  have hsnug := Plan.snug_node sources m (.source id schema data) []
  rw [Operator.snug] at hsnug
  obtain ⟨hedits, hblock⟩ := source_drawn schema _ P hP
  have hnew : P.edits ⊆ (({} : Progress).add m P).edits := List.subset_append_right ..
  cases htab : Operator.isTabular sources (.source id schema data) with
  | true =>
    have hwidth : ∀ xs ∈ ((sources.lookup id).getD (.list [])).matrix,
        xs.length ≤ (schema.getD []).length := by simpa [Operator.isTabular] using htab
    have hsits : Sits 0 _ P := source_sits hwidth P hP _ hnew
    rw [htab, if_pos rfl] at hsnug
    exact .of_some hsnug (Fit.add ⟨by simp, by simp⟩ hsits) hsits.2 hblock.last
  | false =>
    rw [htab, if_neg (by simp)] at hsnug
    -- the first cell that is too far to the right, in some row that is too wide
    obtain ⟨xs, hxs, hwide⟩ : ∃ xs ∈ ((sources.lookup id).getD (.list [])).matrix,
        (schema.getD []).length < xs.length := by simpa [Operator.isTabular] using htab
    obtain ⟨i, hi, hget⟩ := List.getElem_of_mem hxs
    generalize (sources.lookup id).getD (.list []) = rows at *
    have hvalues : .values (sheetName .source 0) 1 0 rows ∈ P.edits := by simp [hedits]
    have hgrid : .create (sheetName .source 0) (.int (rowCount rows + 1 : Nat))
        (schema.getD []).length ∈ P.edits := by simp [hedits, opening, Extent.toNumber]
    refine .of_none hsnug (.cell (hnew hvalues) (Edit.mem_cells_values.mpr
      ⟨i, (schema.getD []).length, xs, ?_, hwide, rfl⟩) (hnew hgrid) (.inr (by simp)))
    rw [← hget]
    exact List.getElem?_eq_getElem hi

theorem filter_put (predicate : Expr) :
    Ensures (filter counter predicate b) fun P ↦
      ∃ t, put (sheetName .filter counter) 1 0 t ∈ P.edits := by
  unfold filter
  refine (ensures_true _).bind fun c _ ↦ (place_keeps _ _ _ _).mono fun P hP ↦ ?_
  exact ⟨.call "FILTER" [b.body, c], by simp [hP.1]⟩

theorem filter_tight (predicate : Expr) (hi : Tight sources i b s) :
    Ensures (filter s.counter predicate b) fun P ↦
      Tight sources (.node m (.filter predicate) [i]) P.block (s.add m P) := by
  intro P hP
  have hnew : P.edits ⊆ (s.add m P).edits := List.subset_append_right ..
  have hsnug := Plan.snug_node sources m (.filter predicate) [i]
  cases hn : i.snug sources with
  | none =>
    have hnone : Plan.snug sources (.node m (.filter predicate) [i]) = none := by
      simp [hsnug, hn, Operator.snug]
    exact .of_none hnone ((hi.spills hn).add m P)
  | some n =>
    obtain ⟨hfit, hseat, hdepth⟩ := hi.fit n hn
    have hends := filter_drawn hseat.rooted predicate P hP
    rw [List.map_singleton, hn, Operator.snug] at hsnug
    by_cases hpos : 0 < n
    · rw [if_pos hpos] at hsnug
      have hsits : Sits 0 (s.add m P).edits P := hends.sits_over hseat (by omega) (by omega)
        (by omega) (by omega) (List.subset_append_left ..) hnew
      exact .of_some hsnug (hfit.add hsits) hsits.2 (hends.block.last.trans hdepth)
    · rw [if_neg hpos] at hsnug
      -- the formula stands below the only row
      obtain ⟨t, ht⟩ := filter_put predicate P hP
      have hcell : (1, 0) ∈ (put (sheetName .filter s.counter) 1 0 t).cells := by simp [cells_put]
      have hgrid := hends.created
      rw [hends.block.sheet] at hgrid
      exact .of_none hsnug (.cell (hnew ht) hcell (hnew hgrid) (.inl (by dsimp only; omega)))

theorem sort_tight (keys : List SortKey) (cap : Option Int) (predicate : Option Expr)
    (hi : Tight sources i b s) :
    Ensures (sort s.counter keys (cap.map fun n ↦ .ofNat n.toNat) predicate b) fun P ↦
      Tight sources (.node m (.sort keys cap predicate) [i]) P.block (s.add m P) := by
  intro P hP
  have hsnug := Plan.snug_node sources m (.sort keys cap predicate) [i]
  cases hn : i.snug sources with
  | none =>
    have hnone : Plan.snug sources (.node m (.sort keys cap predicate) [i]) = none := by
      cases cap <;> simp [hsnug, hn, Operator.snug]
    exact .of_none hnone ((hi.spills hn).add m P)
  | some n =>
    obtain ⟨hfit, hseat, rfl⟩ := hi.fit n hn
    have hdrawn := @sort_drawn s.counter b hseat.rooted keys (cap.map Int.toNat) predicate
    rw [Option.map_map] at hdrawn
    have hends := hdrawn P hP
    rw [List.map_singleton, hn] at hsnug
    cases cap with
    | none => exact .of_none hsnug (hends.spills le_rfl s m)
    | some c =>
      rw [Operator.snug] at hsnug
      rw [Option.map_some] at hends
      by_cases hc : 0 < c.toNat ∧ c.toNat ≤ b.range.rowEnd
      · rw [if_pos hc] at hsnug
        rw [sortedRows_some hc.1, sortedLast_some hc.1] at hends
        have hsits : Sits 0 (s.add m P).edits P := hends.sits_over hseat (by omega) (by omega)
          (by omega) (by omega) (List.subset_append_left ..) (List.subset_append_right ..)
        exact .of_some hsnug (hfit.add hsits) hsits.2 (hends.block.last.trans (by omega))
      · rw [if_neg hc] at hsnug
        -- a cap of zero caps nothing, and a cap beyond the rows is recorded as one row more
        refine .of_none hsnug (hends.spills ?_ s m)
        rcases Nat.eq_zero_or_pos c.toNat with hzero | hpos
        · rw [hzero]
          exact le_rfl
        · rw [sortedRows_some hpos, sortedLast_some hpos]
          omega

theorem placePlan_tight {p : Plan} (hp : p.Built) :
    Ensures (placePlan sources p {}) fun x ↦ Tight sources p x.1 x.2 := by
  induction p with
  | node m op is ih =>
    obtain ⟨⟨ht, haccepts⟩, hbuilt⟩ := Plan.built_node.mp hp
    intro x hx
    obtain ⟨bs, t, P, hinputs, hP, rfl⟩ := placePlan_start.mp hx
    have hlength := haccepts.length
    cases hop : op.isExact with
    | false =>
      have hin := Plan.mem_occurrences_input (Plan.mem_occurrences_self (.node m op is))
      obtain ⟨⟨-, parts, hrun⟩, hbs, -⟩ := placeInputs_extends
        (fun i hi ↦ (kept_run hp).placePlan (hin i hi)) ⟨rfl, [], run_nil⟩ _ hinputs
      refine .of_none ?_ (placeNode_spills ht hop is
        (fun b hb ↦ (hrun.block (forall_mem_of_forall₂ hbs b hb)).1) m P hP)
      rw [Plan.snug_node, Operator.snug_of_not_isExact hop]
    | true =>
      cases op with
      | source id schema data =>
        obtain rfl := List.length_eq_zero_iff.mp hlength
        obtain ⟨rfl, rfl⟩ := Prod.mk.inj (Except.ok.inj hinputs)
        exact source_tight id schema data m P hP
      | filter predicate =>
        obtain ⟨i, rfl⟩ := List.length_eq_one_iff.mp hlength
        obtain ⟨b, t, hplan, hb⟩ := placeInputs_single.mp hinputs
        obtain ⟨rfl, rfl⟩ := Prod.mk.inj hb
        exact filter_tight predicate (ih i (by simp) (hbuilt i (by simp)) _ hplan) P hP
      | sort keys cap predicate =>
        obtain ⟨i, rfl⟩ := List.length_eq_one_iff.mp hlength
        obtain ⟨b, t, hplan, hb⟩ := placeInputs_single.mp hinputs
        obtain ⟨rfl, rfl⟩ := Prod.mk.inj hb
        exact sort_tight keys cap predicate (ih i (by simp) (hbuilt i (by simp)) _ hplan) P hP
      | _ => cases hop

section LayOut

variable {p q : Plan} {optimized : Bool}

theorem fit_one (hp : p.Built) (hq : chosen p optimized = .ok q)
    (htab : q.All fun op _ ↦ op.isTabular sources = true)
    (h : layOut p sources optimized = .ok s) : Fit 1 s := by
  rw [layOut_eq, hq, ok_bind] at h
  obtain ⟨x, hplace, h⟩ := bind_eq_ok.mp h
  obtain rfl := Except.ok.inj h
  have hnear := (kept_near (chosen_built hp hq) htab).placePlan (Plan.mem_occurrences_self q) {} []
    ⟨rfl, near_nil⟩ x hplace
  exact hnear.1.holds.fit

theorem fit_zero_iff (hp : p.Built) (hq : chosen p optimized = .ok q)
    (h : layOut p sources optimized = .ok s) : Fit 0 s ↔ (q.snug sources).isSome = true := by
  obtain ⟨parts, htidy⟩ := tidy_of_layOut h
  rw [layOut_eq, hq, ok_bind] at h
  obtain ⟨x, hplace, h⟩ := bind_eq_ok.mp h
  obtain rfl := Except.ok.inj h
  have htight := placePlan_tight (chosen_built hp hq) x hplace
  constructor
  · intro hfit
    rw [Option.isSome_iff_ne_none]
    intro hnone
    exact (htight.spills hnone).not_fit (htidy.created ▸ htidy.nodup) hfit
  · intro hsnug
    obtain ⟨n, hn⟩ := Option.isSome_iff_exists.mp hsnug
    exact (htight.fit n hn).1

/-- When no source has rows wider than its schema, nothing in a layout is more than one row or
column outside the grids of the sheets. Everything is inside just when the plan is made of one such
source and of filters and capped sorts over it, none of them over an empty relation, with caps of no
more than the rows that there are. -/
theorem layOut_fit (hp : p.Built) (h : layOut p sources optimized = .ok s) :
    ∃ q, chosen p optimized = .ok q ∧
      ((q.All fun op _ ↦ op.isTabular sources = true) → Fit 1 s) ∧
      (Fit 0 s ↔ (q.snug sources).isSome = true) := by
  obtain ⟨q, hq, -⟩ := run_of_layOut hp h
  exact ⟨q, hq, fun htab ↦ fit_one hp hq htab h, fit_zero_iff hp hq h⟩

end LayOut

def leading : Plan :=
  .node none (.sort [⟨"a", .desc⟩] (some 1) none)
    [.node none (.filter (.binary ">" (.column "a") (.literal (.int 0))))
      [.node none (.source "t" (some ["a", "b"]) none) []]]

theorem layOut_fit_leading :
    let sources : Sources := [("t", .list [.list [.int 1, .int 5], .list [.int 2]])]
    leading.Built ∧ ∃ s, layOut leading sources false = .ok s ∧ Fit 0 s ∧ Fit 1 s := by
  intro sources
  have hb : leading.Built := by
    simp [Plan.built_node, leading, Operator.isTyped, Operator.Accepts,
      Plan.Offers, Plan.schema?, Expr.isFilled, Expr.columns]
  obtain ⟨s, hs⟩ : ∃ s, layOut leading sources false = .ok s :=
    Outcome.succeeds_of_isOk (by decide +kernel)
  obtain ⟨q, hq, hone, hzero⟩ := layOut_fit hb hs
  obtain rfl := Except.ok.inj hq
  refine ⟨hb, s, hs, hzero.mpr (by decide +kernel), hone ?_⟩
  simp only [Plan.All, Plan.AllList, leading, and_true]
  decide +kernel

def copied : Plan := .node none (.select ["a"] none) [.node none (.source "t" (some ["a"]) none) []]

/-- The sheet of a projection of one row is created with two rows, and its relation is recorded to
have three. -/
theorem layOut_copied :
    let sources : Sources := [("t", .list [.list [.int 1]])]
    copied.Built ∧ ∃ s, layOut copied sources false = .ok s ∧
      (s.written.filter (Edit.creates "Select_1")).map (·.form.describe) =
        ["CreateSheet(name='Select_1', rows=2, cols=1)"] ∧
      (s.blocks.map fun b ↦ (b.sheet, b.address)) =
        [("Source_0", "A1:A2"), ("Select_1", "A1:A3")] ∧ ¬Fit 0 s := by
  intro sources
  have hb : copied.Built := by
    simp [Plan.built_node, copied, Operator.isTyped, Operator.Accepts,
      Plan.Offers, Plan.schema?]
  obtain ⟨s, hs, hgrid, hblocks⟩ := Outcome.exists_of_any (x := layOut copied sources false)
    (P := fun s ↦ (s.written.filter (Edit.creates "Select_1")).map (·.form.describe) =
        ["CreateSheet(name='Select_1', rows=2, cols=1)"] ∧
      (s.blocks.map fun b ↦ (b.sheet, b.address)) =
        [("Source_0", "A1:A2"), ("Select_1", "A1:A3")]) (by decide +kernel)
  refine ⟨hb, s, hs, hgrid, hblocks, fun hfit ↦ ?_⟩
  have hsnug := (fit_zero_iff hb rfl hs).mp hfit
  cases hsnug

end Layout

end Gridplan
