import Gridplan.Proofs.Optimize.Passes
import Gridplan.Proofs.Optimize.Pushdown
import Gridplan.Proofs.Relation.Order

namespace Gridplan

theorem Ranking.sort_pair {α : Type} {r : Ranking α} {a b : α} (h : r.le a b = false) :
    r.sort [a, b] = [b, a] := by
  simp [sort, List.mergeSort, List.MergeSort.Internal.splitInTwo, h]

namespace Relation

variable {R S : Relation} {n : Int}

theorem first_capped (n : Int) (cap : Option Int) (R : Relation) :
    (R.capped cap).first n = R.capped (some (Optimize.bounded n cap)) := by
  cases cap with
  | none => rfl
  | some k =>
    have hmin : min n.toNat k.toNat = (min n k).toNat := by omega
    simp only [capped, first, Optimize.bounded, List.take_take, hmin]

theorem first_eq_final_of_le (h : R.rows.length ≤ n.toNat) : R.first n = R.final n := by
  simp only [first, final, List.take_of_length_le h, Nat.sub_eq_zero_of_le h, List.drop_zero]

theorem arrange_eq_self {C : Direction → Ranking Datum} {keys : List SortKey}
    (hk : ∀ k ∈ keys, k.column ∈ R.columns)
    (h : R.rows.Pairwise fun a b ↦ (order C R.columns keys).le a b = true) :
    R.arrange C keys = some R :=
  arrange_eq_some.mpr ⟨hk, by rw [Ranking.sort_eq_self h]⟩

theorem first_eq_final_iff (h : R.rows.Nodup) :
    R.first n = R.final n ↔ n.toNat = 0 ∨ R.rows.length ≤ n.toNat := by
  constructor
  · intro heq
    by_contra hne
    have hpos : 0 < n.toNat := by omega
    have hlt : n.toNat < R.rows.length := by omega
    have hrows : R.rows.take n.toNat = R.rows.drop (R.rows.length - n.toNat) :=
      congrArg rows heq
    have hhead := congrArg (·[0]?) hrows
    simp only [List.getElem?_take, hpos, if_true, List.getElem?_drop, Nat.add_zero] at hhead
    have := (List.getElem?_inj (hpos.trans hlt) h).mp hhead
    omega
  · rintro (hzero | hle)
    · simp [first, final, hzero]
    · exact first_eq_final_of_le hle

end Relation

namespace Optimize

open Plan

variable {rule : Rule} {m k : Option Nat} {op : Operator} {x y z p q : Plan} {n : Int} {side : Side}
  {keys keys' : List SortKey} {cap cap' : Option Int} {c c' : Option Expr} {I : Interpretation}
  {C : Direction → Ranking Datum} {R S : Relation}

theorem pass_eq_ok : pass rule p = .ok q ↔ ∃ r, step rule p = .ok r ∧ r.getD p = q := by
  simp only [pass, Outcome.bind_eq_ok, Outcome.pure_eq, Except.ok.injEq]

theorem built_of_pass (hr : rule ∈ rules) (hp : p.Built) (h : pass rule p = .ok q) : q.Built := by
  obtain ⟨r, hstep, rfl⟩ := pass_eq_ok.mp h
  exact (step_preserves preserved_kept hr hp hstep).1

theorem pass_of_rule (hy : pass rule y = .ok z) (h : rule op [z] = .ok (some q)) :
    pass rule (.node m op [y]) = .ok q := by
  obtain ⟨r, hstep, rfl⟩ := pass_eq_ok.mp hy
  have hlist : stepList rule [y] = .ok [r] := by simp [stepList, hstep]
  have hfill : fill [r] [y] = [r.getD y] := by cases r <;> rfl
  exact pass_eq_ok.mpr ⟨some q, by simp [step, hlist, hfill, h], rfl⟩

theorem isTyped_of_sort (h : (Plan.node k (.sort keys cap c) [x]).Built) (cap' : Option Int) :
    (Operator.sort keys cap' c).isTyped = true := by
  refine isTyped_sort ?_
  rintro rfl
  cases isTyped_of_built h

theorem fuse_limit (hn : 0 ≤ n) (h : (Plan.node k (.sort keys cap c) [x]).Built) :
    fuse (.limit n side) [.node k (.sort keys cap c) [x]] =
      .ok (some (fresh (.sort keys (some (bounded n cap)) c) [x])) := by
  obtain ⟨⟨-, hkeys, hcap, hoffers⟩, hx⟩ := built_node.mp h
  have hbound : 0 ≤ bounded n cap := by
    cases cap with
    | none => exact hn
    | some b => exact le_min hn (hcap b rfl)
  have hmake : Plan.make (.sort keys (some (bounded n cap)) c) [x] =
      .ok (fresh (.sort keys (some (bounded n cap)) c) [x]) := by
    refine (make_eq_ok (isTyped_of_sort h _) fun q hq ↦ isTyped_of_built (hx q hq)).mpr ⟨?_, rfl⟩
    exact ⟨hkeys, by simpa using hbound, hoffers⟩
  simp only [fuse, hmake, Outcome.ok_bind, Outcome.pure_eq]

theorem meaning_bounded : meaning (I.ordered C) (fresh (.sort keys (some (bounded n cap)) c) [x]) =
    (meaning (I.ordered C) (.node k (.sort keys cap c) [x])).map (Relation.first n) := by
  refine Option.ext fun S ↦ ?_
  rw [fresh, meaning_sort, Option.map_eq_some_iff]
  simp only [meaning_sort]
  constructor
  · rintro ⟨R, T, U, hR, hT, hU, rfl⟩
    exact ⟨U.capped cap, ⟨R, T, U, hR, hT, hU, rfl⟩, Relation.first_capped n cap U⟩
  · rintro ⟨-, ⟨R, T, U, hR, hT, hU, rfl⟩, rfl⟩
    exact ⟨R, T, U, hR, hT, hU, (Relation.first_capped n cap U).symm⟩

/-- A limit over a sort is fused into the sort, whatever end it keeps. The fused sort computes the
same rows as the two nodes exactly when the limit keeps the first rows, or the first rows of the
sorted relation are also its last ones; where all its rows differ, these have to be none or all. -/
theorem fuse_limit_meaning (hb : (Plan.node m (.limit n side) [y]).Built)
    (hy : pass fuse y = .ok (.node k (.sort keys cap c) [x])) :
    ∃ q, pass fuse (.node m (.limit n side) [y]) = .ok q ∧
      (q.meaning (I.ordered C) =
          meaning (I.ordered C) (.node m (.limit n side) [.node k (.sort keys cap c) [x]]) ↔
        side = .head ∨ ∀ S, meaning (I.ordered C) (.node k (.sort keys cap c) [x]) = some S →
          S.first n = S.final n) ∧
      ∀ S, meaning (I.ordered C) (.node k (.sort keys cap c) [x]) = some S → S.rows.Nodup →
        (q.meaning (I.ordered C) =
            meaning (I.ordered C) (.node m (.limit n side) [.node k (.sort keys cap c) [x]]) ↔
          side = .head ∨ n = 0 ∨ S.rows.length ≤ n) := by
  obtain ⟨⟨-, hn⟩, hin⟩ := built_node.mp hb
  have hn : 0 ≤ n := hn
  have hz := built_of_pass (by simp [rules]) (hin y (by simp)) hy
  refine ⟨_, pass_of_rule hy (fuse_limit hn hz), ?_, fun S hS hnodup ↦ ?_⟩
  · rw [meaning_bounded (k := k), meaning_limit]
    cases meaning (I.ordered C) (.node k (.sort keys cap c) [x]) with
    | none => simp
    | some S => cases side <;> simp
  · have hsome : n.toNat = 0 ∨ S.rows.length ≤ n.toNat ↔ n = 0 ∨ S.rows.length ≤ n := by omega
    rw [meaning_bounded (k := k), meaning_limit, hS, ← hsome, ← Relation.first_eq_final_iff hnodup]
    cases side <;> simp

/-- Whole numbers by their size, other cells as zero. -/
def bySize (direction : Direction) : Ranking Datum where
  le a b :=
    if direction = .asc then decide (a.int?.getD 0 ≤ b.int?.getD 0)
    else decide (b.int?.getD 0 ≤ a.int?.getD 0)
  trans a b c := by
    cases direction <;> simp <;> omega
  total a b := by
    cases direction <;> simp <;> omega

def sortedSource : Plan :=
  .fresh (.sort [⟨"a", .asc⟩] none none) [.fresh (.source "t" (some ["a", "b"]) none) []]

def endmost (side : Side) : Plan := .fresh (.limit 1 side) [sortedSource]

theorem built_endmost (side : Side) : (endmost side).Built := by
  simp [built_node, endmost, sortedSource, fresh, Operator.isTyped, Operator.Accepts, Offers,
    schema?]

theorem meaning_sortedSource : sortedSource.meaning (sample.ordered bySize) =
    some ⟨["a", "b"], [[.int 1, .int 10], [.int 2, .int 20], [.int 3, .int 30]]⟩ := by
  refine meaning_sort.mpr ⟨_, _, _, rfl, rfl, Relation.arrange_eq_self ?_ ?_, rfl⟩
  · decide
  · decide

theorem fuse_limit_meaning_head : (endmost .head).Built ∧ ∃ q, pass fuse (endmost .head) = .ok q ∧
    q.meaning (sample.ordered bySize) = (endmost .head).meaning (sample.ordered bySize) := by
  obtain ⟨q, hq, hiff, -⟩ := fuse_limit_meaning (I := sample) (C := bySize)
    (built_endmost .head) rfl
  exact ⟨built_endmost .head, q, hq, hiff.mpr (.inl rfl)⟩

/-- The last row of a sorted source becomes its first. -/
theorem fuse_limit_tail : (endmost .tail).Built ∧ ∃ q, pass fuse (endmost .tail) = .ok q ∧
    q.meaning (sample.ordered bySize) = some ⟨["a", "b"], [[.int 1, .int 10]]⟩ ∧
    (endmost .tail).meaning (sample.ordered bySize) = some ⟨["a", "b"], [[.int 3, .int 30]]⟩ := by
  refine ⟨built_endmost .tail, _, rfl, ?_, ?_⟩
  · exact (meaning_bounded (k := none)).trans (congrArg _ meaning_sortedSource)
  · exact meaning_limit.trans (congrArg _ meaning_sortedSource)

/-- What a sort computes: some of the rows, and if all of them, then in the order of its keys. -/
theorem sort_spec (h : meaning (I.ordered C) (.node k (.sort keys cap c) [x]) = some S)
    (hR : x.meaning (I.ordered C) = some R) :
    (∀ k ∈ keys, k.column ∈ R.columns) ∧ S.columns = R.columns ∧ S.rows.length ≤ R.rows.length ∧
      (S.rows.length = R.rows.length →
        S.rows = (Relation.order C R.columns keys).sort R.rows) := by
  obtain ⟨R', T, U, hR', hT, hU, rfl⟩ := meaning_sort.mp h
  obtain rfl : R = R' := Option.some.inj (hR.symm.trans hR')
  obtain ⟨hkeys, rfl⟩ := Relation.arrange_eq_some.mp hU
  have hcols := Relation.restrictIf_columns hT
  have hrows := Relation.restrictIf_rows hT
  rw [hcols] at hkeys ⊢
  set U : Relation := ⟨R.columns, (Relation.order C R.columns keys).sort T.rows⟩ with hUdef
  have hcap := Relation.capped_rows cap U
  have hlen : U.rows.length = T.rows.length := (Ranking.sort_perm _ T.rows).length_eq
  have hle := hcap.length_le
  have hle' := hrows.length_le
  refine ⟨hkeys, Relation.capped_columns cap U, by omega, fun heq ↦ ?_⟩
  have hsort : (U.capped cap).rows = U.rows := hcap.eq_of_length (by omega)
  have hall : T.rows = R.rows := hrows.eq_of_length (by omega)
  rw [hsort, hUdef, hall]

theorem simplify_sort (hb : (Plan.node m (.sort keys cap c) [y]).Built) (hx : x.Built)
    (hR : x.meaning I = some R) (hkeys : ∀ k ∈ keys, k.column ∈ R.columns) :
    simplify (.sort keys cap c) [.node k (.sort keys' cap' c') [x]] =
      .ok (some (fresh (.sort keys none none) [x])) := by
  obtain ⟨⟨-, hne, -, -⟩, -⟩ := built_node.mp hb
  have hoffers : x.Offers (keys.map (·.column)) := by
    refine hx.offers hR fun n hn ↦ ?_
    obtain ⟨key, hkey, rfl⟩ := List.mem_map.mp hn
    exact hkeys key hkey
  have hmake : Plan.make (.sort keys none none) [x] = .ok (fresh (.sort keys none none) [x]) := by
    refine (make_eq_ok rfl ?_).mpr ⟨⟨hne, by simp, hoffers⟩, rfl⟩
    simpa using isTyped_of_built hx
  simp only [simplify, hmake, Outcome.ok_bind, Outcome.pure_eq]

/-- A sort of a sort is replaced by the outer sort alone. This computes the same rows as the two
nodes exactly when no row is lost to a limit or a condition of either, and the rows that tie in the
outer sort were in the order of the inner one before both. -/
theorem absorb_sort_meaning (hb : (Plan.node m (.sort keys cap c) [y]).Built)
    (hy : pass simplify y = .ok (.node k (.sort keys' cap' c') [x]))
    (hR : x.meaning (I.ordered C) = some R)
    (hS : meaning (I.ordered C) (.node m (.sort keys cap c) [.node k (.sort keys' cap' c') [x]]) =
      some S) :
    ∃ q, pass simplify (.node m (.sort keys cap c) [y]) = .ok q ∧
      (q.meaning (I.ordered C) = some S ↔ S.rows.length = R.rows.length ∧
        R.rows.Pairwise fun a b ↦ (Relation.order C R.columns keys).ties a b = true →
          (Relation.order C R.columns keys').le a b = true) := by
  have hz := built_of_pass (by simp [rules]) ((built_node.mp hb).2 y (by simp)) hy
  have hx : x.Built := (built_node.mp hz).2 x (by simp)
  obtain ⟨V, hV⟩ := meaning_of_mem hS (List.mem_singleton_self _)
  obtain ⟨-, hVcols, hVle, hVrows⟩ := sort_spec hV hR
  obtain ⟨hkeys, hScols, hSle, hSrows⟩ := sort_spec hS hV
  rw [hVcols] at hkeys hScols hSrows
  refine ⟨_, pass_of_rule hy (simplify_sort hb hx hR hkeys), ?_⟩
  have hq : meaning (I.ordered C) (fresh (.sort keys none none) [x]) =
      some ⟨R.columns, (Relation.order C R.columns keys).sort R.rows⟩ :=
    meaning_sort.mpr ⟨R, R, _, hR, rfl, Relation.arrange_eq_some.mpr ⟨hkeys, rfl⟩, rfl⟩
  have hlen : ((Relation.order C R.columns keys).sort R.rows).length = R.rows.length :=
    (Ranking.sort_perm _ R.rows).length_eq
  -- as long as no row is lost, the two nodes sort the rows twice
  have htwice : S.rows.length = R.rows.length → S.rows = (Relation.order C R.columns keys).sort
      ((Relation.order C R.columns keys').sort R.rows) := by
    intro heq
    rw [hSrows (by omega), hVrows (by omega)]
  rw [hq, Option.some.injEq, ← Ranking.sort_sort_iff]
  constructor
  · intro heq
    have hrows : S.rows = (Relation.order C R.columns keys).sort R.rows := by rw [← heq]
    have hkept : S.rows.length = R.rows.length := by rw [hrows, hlen]
    exact ⟨hkept, (htwice hkept).symm.trans hrows⟩
  · rintro ⟨hkept, hsort⟩
    obtain ⟨columns, rows⟩ := S
    obtain rfl : columns = R.columns := hScols
    obtain rfl := (htwice hkept).trans hsort
    rfl

/-- Two rows that tie in one column, out of order in the other. -/
def tied : Interpretation where
  toAlgebra := sample.toAlgebra
  source _ schema := some ⟨schema.getD ["a", "b"], [[.int 1, .int 2], [.int 1, .int 1]]⟩
  source_columns h := by cases h; rfl
  other := sample.other

def resorted (keys : List SortKey) : Plan :=
  .fresh (.sort keys none none) [.fresh (.sort [⟨"b", .asc⟩] none none)
    [.fresh (.source "t" (some ["a", "b"]) none) []]]

theorem meaning_resorted (keys : List SortKey) (hk : ∀ k ∈ keys, k.column ∈ ["a", "b"])
    (h : (Relation.order bySize ["a", "b"] keys).le [.int 1, .int 1] [.int 1, .int 2] = true) :
    (resorted keys).meaning (tied.ordered bySize) =
      some ⟨["a", "b"], [[.int 1, .int 1], [.int 1, .int 2]]⟩ := by
  have hinner : meaning (tied.ordered bySize) (.fresh (.sort [⟨"b", .asc⟩] none none)
      [.fresh (.source "t" (some ["a", "b"]) none) []]) =
        some ⟨["a", "b"], [[.int 1, .int 1], [.int 1, .int 2]]⟩ := by
    refine meaning_sort.mpr ⟨_, _, _, rfl, rfl, Relation.arrange_eq_some.mpr ⟨by decide, rfl⟩, ?_⟩
    exact congrArg (Relation.mk _) (Ranking.sort_pair (by decide))
  refine meaning_sort.mpr ⟨_, _, _, hinner, rfl, Relation.arrange_eq_self hk ?_, rfl⟩
  simpa using h

theorem absorb_sort_meaning_refined : (resorted [⟨"a", .asc⟩, ⟨"b", .asc⟩]).Built ∧
    ∃ q, pass simplify (resorted [⟨"a", .asc⟩, ⟨"b", .asc⟩]) = .ok q ∧
      q.meaning (tied.ordered bySize) =
        (resorted [⟨"a", .asc⟩, ⟨"b", .asc⟩]).meaning (tied.ordered bySize) := by
  have hb : (resorted [⟨"a", .asc⟩, ⟨"b", .asc⟩]).Built := by
    simp [built_node, resorted, fresh, Operator.isTyped, Operator.Accepts, Offers, schema?]
  have hm := meaning_resorted [⟨"a", .asc⟩, ⟨"b", .asc⟩] (by decide) (by decide)
  obtain ⟨q, hq, hiff⟩ := absorb_sort_meaning (I := tied) (C := bySize) hb rfl rfl hm
  refine ⟨hb, q, hq, (hiff.mpr ⟨rfl, ?_⟩).trans hm.symm⟩
  exact List.pairwise_of_forall fun a b ht ↦ Relation.order_le_of_ties (by simp) ht

/-- The order of ties is lost with the inner sort. -/
theorem absorb_sort_ties : (resorted [⟨"a", .asc⟩]).Built ∧
    ∃ q, pass simplify (resorted [⟨"a", .asc⟩]) = .ok q ∧
      q.meaning (tied.ordered bySize) =
        some ⟨["a", "b"], [[.int 1, .int 2], [.int 1, .int 1]]⟩ ∧
      (resorted [⟨"a", .asc⟩]).meaning (tied.ordered bySize) =
        some ⟨["a", "b"], [[.int 1, .int 1], [.int 1, .int 2]]⟩ := by
  refine ⟨?_, _, rfl, ?_, meaning_resorted _ (by decide) (by decide)⟩
  · simp [built_node, resorted, fresh, Operator.isTyped, Operator.Accepts, Offers, schema?]
  · exact meaning_sort.mpr ⟨_, _, _, rfl, rfl, Relation.arrange_eq_self (by decide) (by decide), rfl⟩

end Optimize

end Gridplan
