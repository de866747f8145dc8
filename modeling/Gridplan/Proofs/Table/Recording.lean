import Gridplan.Table.Combine
import Gridplan.Table.Mask
import Gridplan.Table.Summarize
import Gridplan.Proofs.Plan.Reading

namespace Gridplan

namespace Recording

variable {α β : Type} {n n' : Nat}

theorem bind_eq_ok {x : Recording α} {f : α → Recording β} {b : β} :
    (x >>= f) n = .ok (b, n') ↔ ∃ a k, x n = .ok (a, k) ∧ f a k = .ok (b, n') := by
  have hbind : (x >>= f) n = x n >>= fun s ↦ f s.1 s.2 := rfl
  rw [hbind, Outcome.bind_eq_ok]
  constructor
  · intro h
    obtain ⟨s, hs, hf⟩ := h
    exact ⟨s.1, s.2, hs, hf⟩
  · intro h
    obtain ⟨a, k, hx, hf⟩ := h
    exact ⟨(a, k), hx, hf⟩

theorem lift_eq_ok {x : Outcome α} {a : α} :
    (liftM x : Recording α) n = .ok (a, n') ↔ x = .ok a ∧ n' = n := by
  have hlift : (liftM x : Recording α) n = x >>= fun a ↦ .ok (a, n) := rfl
  rw [hlift, Outcome.bind_eq_ok]
  constructor
  · intro h
    obtain ⟨b, hx, hb⟩ := h
    cases hb
    exact ⟨hx, rfl⟩
  · intro h
    obtain ⟨hx, rfl⟩ := h
    exact ⟨a, hx, rfl⟩

theorem lift_bind_eq_ok {x : Outcome α} {f : α → Recording β} {b : β} :
    (liftM x >>= f : Recording β) n = .ok (b, n') ↔ ∃ a, x = .ok a ∧ f a n = .ok (b, n') := by
  simp only [bind_eq_ok, lift_eq_ok]
  constructor
  · rintro ⟨a, k, ⟨hx, rfl⟩, hf⟩
    exact ⟨a, hx, hf⟩
  · rintro ⟨a, hx, hf⟩
    exact ⟨a, n, ⟨hx, rfl⟩, hf⟩

theorem pure_eq_ok {a b : α} : (pure a : Recording α) n = .ok (b, n') ↔ b = a ∧ n' = n := by
  have hpure : (pure a : Recording α) n = .ok (a, n) := rfl
  rw [hpure]
  simp only [Except.ok.injEq, Prod.mk.injEq, eq_comm]

end Recording

inductive KeyNames where
  | one (name : String)
  | several (names : List String)

namespace KeyNames

def toDatum : KeyNames → Datum
  | one n => .text n
  | several ns => .list (ns.map .text)

def names : KeyNames → List String
  | one n => [n]
  | several ns => ns

end KeyNames

namespace Plan

open Outcome (Ensures)

variable {kind : Kind} {params : Params} {is : List Plan} {p q t : Plan} {n n' : Nat}

theorem record_eq_ok : record kind params is n = .ok (p, n') ↔
    ∃ q, build kind { params, inputs := is } = .ok q ∧ p = .node (some n) q.op q.inputs ∧
      n' = n + 1 := by
  unfold record
  rw [Recording.lift_bind_eq_ok]
  constructor
  · intro h
    obtain ⟨q, hbuild, h⟩ := h
    obtain ⟨m, j, hm, h⟩ := Recording.bind_eq_ok.mp h
    cases hm
    obtain ⟨rfl, rfl⟩ := Recording.pure_eq_ok.mp h
    exact ⟨q, hbuild, rfl, rfl⟩
  · intro h
    obtain ⟨q, hq, rfl, rfl⟩ := h
    exact ⟨q, hq, rfl⟩

/-- The kinds that calls record with their parameters as they are given. -/
def storesAsGiven : Kind → Bool
  | .source | .select | .filter | .sort | .limit | .groupBy => true
  | _ => false

theorem check_stored {ps : Params} (hk : storesAsGiven kind = true) :
    Ensures (check kind ps is) (· = ps) := by
  unfold check
  cases kind with
  | source =>
    simp only
    split
    · exact .ok rfl
    · exact .error _
  | select | filter => exact .skip fun _ ↦ .skip fun _ ↦ .skip fun _ ↦ .ok rfl
  | sort =>
    refine .skip fun _ ↦ .skip fun _ ↦ .skip fun _ ↦ ?_
    split
    · exact .skip fun _ ↦ .skip fun _ ↦ .ok rfl
    · exact .skip fun _ ↦ .ok rfl
  | limit =>
    refine .skip fun _ ↦ .skip fun _ ↦ ?_
    split
    · exact .error _
    · exact .ok rfl
  | groupBy =>
    refine .skip fun _ ↦ .skip fun _ ↦ ?_
    split
    · exact .skip fun _ ↦ .ok rfl
    · exact .ok rfl
  | _ => cases hk

def stored (kind : Kind) (params : Params) : Operator :=
  withData none (Operator.ofParams kind (Params.complete kind params))

theorem build_stored (hk : storesAsGiven kind = true) (his : is ≠ [] ∨ kind = .source)
    (h : build kind { params, inputs := is } = .ok q) : q = fresh (stored kind params) is := by
  unfold build at h
  split at h
  · cases h
  have hin : resolveInputs kind { params, inputs := is } = is := by
    cases his with
    | inl hne => simp [resolveInputs, hne]
    | inr hsource =>
      subst hsource
      cases is <;> rfl
  rw [hin] at h
  obtain ⟨qs, hqs, hq⟩ := Outcome.bind_eq_ok.mp h
  obtain rfl := check_stored hk qs hqs
  exact (Except.ok.inj hq).symm

section Stored

attribute [local simp] stored withData Operator.ofParams Operator.ofParams? Params.complete
  Kind.defaults
  Kind.aliases Params.texts? Params.option? Params.expr? Params.data? Params.get List.lookup_cons

theorem stored_select (columns : List String) :
    stored .select [("columns", .raw (.list (columns.map .text)))] = .select columns none := by
  have htexts : (Datum.list (columns.map .text)).texts? = some columns :=
    Operator.texts?_ofTexts columns
  simp [htexts]

theorem stored_filter (e : Expr) : stored .filter [("predicate", e)] = .filter e := rfl

theorem stored_sort (keys : List SortKey) :
    stored .sort [("keys", .raw (.list (keys.map SortKey.toTuple)))] = .sort keys none none := by
  simp

theorem stored_limit (n : Nat) (side : Side) :
    stored .limit [("count", .raw (.int n)), ("end", .raw (.text side.name))] = .limit n side := by
  cases side <;> rfl

theorem stored_groupBy (keys : List String) (aggs : List Aggregation) :
    stored .groupBy [("keys", .raw (.list (keys.map .text))),
        ("aggregations", .raw (.list (aggs.map Aggregation.toTuple)))] =
      .groupBy keys aggs [] none := by
  have htexts : (Datum.list (keys.map .text)).texts? = some keys := Operator.texts?_ofTexts keys
  simp [htexts]

theorem stored_groupBy_loose (keys : Expr) {ds : List Datum}
    (h : Aggregation.listOf? (.list ds) = none) :
    ∃ ps, stored .groupBy [("keys", keys), ("aggregations", .raw (.list ds))] =
      .loose .groupBy ps := by
  have hnone : Operator.ofParams? .groupBy (Params.complete .groupBy
      [("keys", keys), ("aggregations", .raw (.list ds))]) = none := by
    simp [h]
  rw [stored, Operator.ofParams, hnone]
  exact ⟨_, rfl⟩

end Stored

theorem asList_toDatum {k : KeyNames} (h : (asList (.raw k.toDatum)).truthy = true) :
    asList (.raw k.toDatum) = .raw (Datum.ofTexts k.names) := by
  cases k with
  | one n =>
    by_cases hn : n = ""
    · subst hn
      cases h
    · simp [asList, KeyNames.toDatum, KeyNames.names, Datum.ofTexts]
  | several ns => rfl

def joinParams (l r : Expr) (how : String) (a b : Option String) : Params :=
  [("left_on", l), ("right_on", r), ("join_type", .raw (.text how)),
    ("suffixes", .raw (.tuple [Datum.ofText? a, Datum.ofText? b]))]

theorem ofParams_join {l r : List String} {how : String} {k : JoinKind} {a b : Option String}
    (hk : JoinKind.ofName? how = some k) :
    Operator.ofParams .join (joinParams (.raw (Datum.ofTexts l)) (.raw (Datum.ofTexts r)) how a b) =
      .join l r k (a, b) := by
  cases a <;> cases b <;>
    simp [Operator.ofParams, Operator.ofParams?, joinParams, Params.data?, Params.texts?,
      Params.text?, Params.get, List.lookup_cons, Datum.ofText?, Datum.text?, hk]

theorem build_join {l r : KeyNames} {how : String} {a b : Option String}
    {ps : Params} (hps : joinParams (.raw l.toDatum) (.raw r.toDatum) how a b = ps)
    (h : build .join { params := ps, inputs := [p, q] } = .ok t) :
    ∃ k, JoinKind.ofName? how = some k ∧ t = fresh (.join l.names r.names k (a, b)) [p, q] := by
  unfold build at h
  split at h
  · cases h
  obtain ⟨qs, hqs, ht⟩ := Outcome.bind_eq_ok.mp h
  subst hps
  have hcomplete : Params.complete .join (joinParams (.raw l.toDatum) (.raw r.toDatum) how a b) =
      joinParams (.raw l.toDatum) (.raw r.toDatum) how a b := rfl
  rw [hcomplete] at hqs
  simp only [check] at hqs
  obtain ⟨-, hqs⟩ := guard_eq_ok.mp hqs
  obtain ⟨hl, hqs⟩ := guard_eq_ok.mp hqs
  obtain ⟨hr, hqs⟩ := guard_eq_ok.mp hqs
  obtain ⟨-, hqs⟩ := guard_eq_ok.mp hqs
  split at hqs
  · cases hqs
  · next hkind =>
    obtain ⟨-, hqs⟩ := guard_eq_ok.mp hqs
    obtain ⟨-, hqs⟩ := guard_eq_ok.mp hqs
    have hstored : qs = joinParams (asList (.raw l.toDatum)) (asList (.raw r.toDatum)) how a b :=
      (Except.ok.inj hqs).symm
    rw [asList_toDatum (checkFilled_eq_ok.mp hl), asList_toDatum (checkFilled_eq_ok.mp hr)] at hstored
    obtain ⟨k, hk⟩ : ∃ k, JoinKind.ofName? how = some k :=
      Option.ne_none_iff_exists'.mp fun hnone ↦ hkind (Option.isNone_iff_eq_none.mpr hnone)
    refine ⟨k, hk, (Except.ok.inj ht).symm.trans ?_⟩
    rw [hstored, ofParams_join hk]
    rfl

end Plan

namespace Table

variable {t t' : Table} {n n' : Nat}

theorem follow_untracked {f : Frame} {kind : Kind} {params : Params} (hp : t.plan = none)
    (h : t.follow f kind params n = .ok (t', n')) : t'.plan = none ∧ n' = n := by
  simp only [follow, hp] at h
  obtain ⟨rfl, rfl⟩ := Recording.pure_eq_ok.mp h
  exact ⟨rfl, rfl⟩

theorem follow_tracked {f : Frame} {kind : Kind} {params : Params} {p : Plan}
    (hk : Plan.storesAsGiven kind = true) (hp : t.plan = some p)
    (h : t.follow f kind params n = .ok (t', n')) :
    t' = ⟨f, some (.node (some n) (Plan.stored kind params) [p])⟩ ∧ n' = n + 1 := by
  simp only [follow, hp] at h
  obtain ⟨q, k, hq, h⟩ := Recording.bind_eq_ok.mp h
  obtain ⟨rfl, rfl⟩ := Recording.pure_eq_ok.mp h
  obtain ⟨b, hb, rfl, rfl⟩ := Plan.record_eq_ok.mp hq
  obtain rfl := Plan.build_stored hk (.inl (by simp)) hb
  exact ⟨rfl, rfl⟩

end Table

end Gridplan
