import Gridplan.Proofs.Optimize.Sources
import Gridplan.Proofs.Plan.Sharing
import Gridplan.Proofs.Table.Verbs

namespace Gridplan

open Outcome (bind_eq_ok)

namespace Operator

variable {op : Operator}

def supply : Option Frame → Operator → Operator
  | some f, .source id schema _ => .source id schema (some f)
  | some f, .loose .source _ => .source "" none (some f)
  | _, op => op

theorem supply_of_inputs {o : Option Frame} {n : Nat} (h : inputCount? op.kind = some (n + 1)) :
    op.supply o = op := by
  cases o with
  | none => rfl
  | some f =>
    cases op with
    | source => cases h
    | loose k ps =>
      cases k with
      | source => cases h
      | _ => rfl
    | _ => rfl

end Operator

namespace Plan

mutual

def supply (data : List (Nat × Frame)) : Plan → Plan
  | .node m op is => .node m (op.supply (m.bind fun k ↦ List.lookup k data)) (supplyList data is)

def supplyList (data : List (Nat × Frame)) : List Plan → List Plan
  | [] => []
  | p :: ps => supply data p :: supplyList data ps

end

variable {data : List (Nat × Frame)} {m : Option Nat} {op : Operator} {is : List Plan} {p q : Plan}
  {n k : Nat} {f g : Frame}

theorem supply_node : supply data (.node m op is) =
    .node m (op.supply (m.bind fun k ↦ List.lookup k data)) (is.map (supply data)) := by
  rw [supply, eq_map_of_cons (g := supplyList data) rfl fun _ _ ↦ rfl]

theorem run_source (h : op.kind = .source) : run (.node m (op.supply (some f)) is) = .ok f := by
  cases op with
  | source => rfl
  | loose k ps =>
    obtain rfl : k = .source := h
    rfl
  | _ => cases h

theorem run_inputs (h : Operator.inputCount? op.kind = some (n + 1)) (hlen : is.length = n + 1) :
    run (.node m op is) = runList is >>= op.run := by
  have hcount : Operator.inputCount? op.kind = some is.length := by rw [h, hlen]
  cases op with
  | source => cases h
  | _ => exact if_pos hcount

theorem runList_eq_ok {fs : List Frame}
    (h : List.Forall₂ (fun i f ↦ (supply data i).run = .ok f) is fs) :
    runList (is.map (supply data)) = .ok fs := by
  induction h with
  | nil => rfl
  | cons hp _ ih => simp only [List.map_cons, runList, hp, ih, Outcome.ok_bind, Outcome.pure_eq]

theorem run_supply_inputs {fs : List Frame} (hcount : Operator.inputCount? op.kind = some (n + 1))
    (hlen : is.length = n + 1)
    (h : List.Forall₂ (fun i f ↦ (supply data i).run = .ok f) is fs) :
    (supply data (.node m op is)).run = op.run fs := by
  rw [supply_node, Operator.supply_of_inputs hcount, run_inputs hcount (by rw [List.length_map, hlen]),
    runList_eq_ok h, Outcome.ok_bind]

def Below (n : Nat) (p : Plan) : Prop := ∀ x ∈ p.occurrences, ∀ k, x.mark = some k → k < n

theorem below_node : Below n (.node m op is) ↔
    (∀ k, m = some k → k < n) ∧ ∀ i ∈ is, i.Below n := by
  constructor
  · intro h
    refine ⟨h _ (mem_occurrences_self _), ?_⟩
    intro i hi x hx
    exact h x (mem_occurrences_node.mpr (.inr ⟨i, hi, hx⟩))
  · intro h x hx
    rcases mem_occurrences_node.mp hx with rfl | ⟨i, hi, hx⟩
    · exact h.1
    · exact h.2 i hi x hx

theorem Below.mono (h : p.Below n) (hnk : n ≤ k) : p.Below k := by
  intro x hx j hj
  exact Nat.lt_of_lt_of_le (h x hx j hj) hnk

theorem Below.supply_cons (h : p.Below n) : p.supply ((n, f) :: data) = p.supply data := by
  induction p with
  | node m op is ih =>
    obtain ⟨hm, his⟩ := below_node.mp h
    have hlookup : (m.bind fun k ↦ List.lookup k ((n, f) :: data)) =
        m.bind fun k ↦ List.lookup k data := by
      cases m with
      | none => rfl
      | some k =>
        have hne : (k == n) = false := beq_eq_false_iff_ne.mpr (Nat.ne_of_lt (hm k rfl))
        simp only [Option.bind_some, List.lookup_cons, hne]
    rw [supply_node, supply_node, hlookup]
    exact congrArg _ (List.map_congr_left fun i hi ↦ ih i hi (his i hi))

/-- What a new source is: a node without inputs. -/
structure IsSourceOf (n : Nat) (q : Plan) : Prop where
  kind : q.op.kind = .source
  node : q = .node (some n) q.op []

theorem recordSource_eq_ok {id : String} {schema : Datum}
    (h : recordSource id schema n = .ok (q, k)) : q.IsSourceOf n ∧ k = n + 1 := by
  obtain ⟨b, hb, rfl, rfl⟩ := record_eq_ok.mp h
  obtain rfl := build_stored rfl (.inr rfl) hb
  have hkind : (stored .source [("source_id", .raw (.text id)), ("schema", .raw schema)]).kind =
      .source := by
    rw [stored, kind_withData, kind_ofParams]
  exact ⟨⟨hkind, rfl⟩, rfl⟩

theorem IsSourceOf.below (h : q.IsSourceOf n) : q.Below (n + 1) := by
  rw [h.node, below_node]
  refine ⟨?_, fun i hi ↦ absurd hi List.not_mem_nil⟩
  intro k hk
  cases hk
  exact Nat.lt_succ_self n

theorem IsSourceOf.run (h : q.IsSourceOf n) : (q.supply ((n, f) :: data)).run = .ok f := by
  rw [h.node, supply_node]
  simp only [Option.bind_some, List.lookup_cons_self]
  exact run_source h.kind

end Plan

theorem Table.rootOr_eq_ok {t : Table} {id : String} {n k : Nat} {q : Plan}
    (h : t.rootOr id n = .ok (q, k)) :
    (t.plan = some q ∧ k = n) ∨ (t.plan = none ∧ q.IsSourceOf n ∧ k = n + 1) := by
  unfold rootOr at h
  cases hp : t.plan with
  | some p =>
    simp only [hp] at h
    obtain ⟨rfl, rfl⟩ := Recording.pure_eq_ok.mp h
    exact .inl ⟨rfl, rfl⟩
  | none =>
    simp only [hp] at h
    exact .inr ⟨rfl, Plan.recordSource_eq_ok h⟩

/-- The tables made so far, the next mark, and the frames that marked sources stand for. -/
structure Session where
  tables : List Table := []
  next : Nat := 0
  sources : List (Nat × Frame) := []

inductive TableCall where
  | start (f : Frame) (id : String)
  | plain (f : Frame)
  | verb (i : Nat) (v : Verb)
  | merge (i j : Nat) (m : MergeCall)

namespace Session

def table (s : Session) (i : Nat) : Outcome Table :=
  match s.tables[i]? with
  | some t => .ok t
  | none => .error .label

def add (s : Session) (data : List (Nat × Frame)) (made : Table × Nat) : Session :=
  ⟨s.tables ++ [made.1], made.2, data ++ s.sources⟩

def rightData (s : Session) (l r : Table) : List (Nat × Frame) :=
  if l.plan.isSome && r.plan.isNone then [(s.next, r.frame)] else []

def call (s : Session) : TableCall → Outcome Session
  | .start f id => do return s.add [(s.next, f)] (← Table.ofFrame f id s.next)
  | .plain f => .ok (s.add [] (⟨f, none⟩, s.next))
  | .verb i v => do
    let t ← s.table i
    return s.add [] (← v.apply t s.next)
  | .merge i j m => do
    let l ← s.table i
    let r ← s.table j
    return s.add (s.rightData l r) (← Table.merge m.merging l r s.next)

def run (s : Session) : List TableCall → Outcome Session
  | [] => .ok s
  | c :: cs => do (← s.call c).run cs

/-- Whether running the plan of a table makes its columns and rows again. -/
def Kept (s : Session) (t : Table) : Prop :=
  ∀ p, t.plan = some p → ∃ g, (p.supply s.sources).run = .ok g ∧
    g.columns = t.frame.columns ∧ g.rows = t.frame.rows

/-- Whether a call is faithful to the frame of the table that it is made on. -/
def Faithful (s : Session) : TableCall → Prop
  | .verb i v => ∀ t, s.tables[i]? = some t → t.plan.isSome = true → v.Faithful t
  | _ => True

def FaithfulRun (s : Session) : List TableCall → Prop
  | [] => True
  | c :: cs => s.Faithful c ∧ ∀ s', s.call c = .ok s' → s'.FaithfulRun cs

def Sound (s : Session) : Prop := ∀ t ∈ s.tables, ∀ p, t.plan = some p → p.Below s.next

variable {s s' : Session} {c : TableCall} {t : Table} {i : Nat}

theorem kept_iff : s.Kept t ↔ ∀ p, t.plan = some p →
    ∃ g, (p.supply s.sources).run = .ok g ∧ g.Alike t.frame := by
  simp only [Kept, Frame.alike_iff]

theorem kept_untracked (h : t.plan = none) : s.Kept t := by
  intro p hp
  rw [h] at hp
  cases hp

theorem table_eq_ok : s.table i = .ok t ↔ s.tables[i]? = some t := by
  unfold table
  cases s.tables[i]? <;> simp

theorem mem_of_table (h : s.table i = .ok t) : t ∈ s.tables :=
  List.mem_of_getElem? (table_eq_ok.mp h)

/-- What a call can do: it adds a table, perhaps after a new source. -/
structure Grows (s s' : Session) (t : Table) : Prop where
  tables : s'.tables = s.tables ++ [t]
  next : s.next ≤ s'.next
  sources : s'.sources = s.sources ∨ ∃ f, s'.sources = (s.next, f) :: s.sources
  below : ∀ p, t.plan = some p → p.Below s'.next

theorem Grows.sound (h : s.Grows s' t) (hs : s.Sound) : s'.Sound := by
  intro t' ht' p hp
  rw [h.tables, List.mem_append, List.mem_singleton] at ht'
  rcases ht' with hold | rfl
  · exact (hs t' hold p hp).mono h.next
  · exact h.below p hp

theorem Grows.supply (h : s.Grows s' t) {p : Plan} (hp : p.Below s.next) :
    p.supply s'.sources = p.supply s.sources := by
  rcases h.sources with hsame | ⟨f, hnew⟩
  · rw [hsame]
  · rw [hnew, hp.supply_cons]

theorem Grows.kept (h : s.Grows s' t) (hs : s.Sound) :
    (∀ u ∈ s'.tables, s'.Kept u) ↔ (∀ u ∈ s.tables, s.Kept u) ∧ s'.Kept t := by
  have hold : ∀ u ∈ s.tables, (s'.Kept u ↔ s.Kept u) := by
    intro u hu
    refine forall₂_congr fun p hp ↦ ?_
    rw [h.supply (hs u hu p hp)]
  rw [h.tables]
  simp only [List.mem_append, List.mem_singleton, or_imp, forall_and, forall_eq]
  exact and_congr_left' (forall₂_congr hold)

theorem call_start {f : Frame} {id : String} (h : s.call (.start f id) = .ok s') :
    ∃ t, s.Grows s' t ∧ s'.Kept t := by
  obtain ⟨made, hmade, hs'⟩ := bind_eq_ok.mp h
  obtain rfl := Except.ok.inj hs'
  obtain ⟨t, n⟩ := made
  obtain ⟨q, k, hq, hpure⟩ := Recording.bind_eq_ok.mp hmade
  obtain ⟨hsource, rfl⟩ := Plan.recordSource_eq_ok hq
  obtain ⟨rfl, rfl⟩ := Recording.pure_eq_ok.mp hpure
  refine ⟨⟨f, some q⟩, ⟨rfl, Nat.le_succ s.next, .inr ⟨f, rfl⟩, ?_⟩, ?_⟩
  · intro p hp
    cases hp
    exact hsource.below
  · intro p hp
    cases hp
    exact ⟨f, hsource.run, rfl, rfl⟩

theorem call_plain {f : Frame} (h : s.call (.plain f) = .ok s') :
    ∃ t, s.Grows s' t ∧ s'.Kept t := by
  obtain rfl := Except.ok.inj h
  refine ⟨⟨f, none⟩, ⟨rfl, le_rfl, .inl rfl, ?_⟩, kept_untracked rfl⟩
  intro p hp
  cases hp

theorem call_verb {v : Verb} (hs : s.Sound) (h : s.call (.verb i v) = .ok s') :
    ∃ t, s.Grows s' t ∧
      ((∀ u ∈ s.tables, s.Kept u) → (s'.Kept t ↔ s.Faithful (.verb i v))) := by
  obtain ⟨t, ht, h⟩ := bind_eq_ok.mp h
  obtain ⟨made, hmade, hs'⟩ := bind_eq_ok.mp h
  obtain rfl := Except.ok.inj hs'
  obtain ⟨t', n⟩ := made
  have hfaithful : s.Faithful (.verb i v) ↔ (t.plan.isSome = true → v.Faithful t) := by
    simp only [Faithful, table_eq_ok.mp ht, Option.some.injEq, forall_eq']
  cases hp : t.plan with
  | none =>
    obtain ⟨hplan, rfl⟩ := Verb.apply_untracked hp hmade
    refine ⟨t', ⟨rfl, le_rfl, .inl rfl, ?_⟩, fun _ ↦ iff_of_true (kept_untracked hplan) ?_⟩
    · intro p h
      rw [hplan] at h
      cases h
    · rw [hfaithful, hp]
      exact fun h ↦ absurd h Bool.false_ne_true
  | some p =>
    have hsome : t.plan.isSome = true := by rw [hp]; rfl
    obtain ⟨op, hrec, hrepeats⟩ := Verb.apply_records hsome hmade
    have hplan : t'.plan = some (.node (some s.next) op [p]) := by rw [hrec.plan, hp]; rfl
    have hn : n = s.next + 1 := hrec.next
    refine ⟨t', ⟨rfl, hn ▸ Nat.le_succ s.next, .inl rfl, ?_⟩, ?_⟩
    · intro q hq
      obtain rfl := Option.some.inj (hplan.symm.trans hq)
      have hbelow := hs t (mem_of_table ht) p hp
      simp only [Plan.below_node, Option.some.injEq, forall_eq', List.mem_singleton, forall_eq]
      exact ⟨hn ▸ Nat.lt_succ_self s.next, hbelow.mono (hn ▸ Nat.le_succ s.next)⟩
    · intro hkept
      obtain ⟨g, hg, halike⟩ := kept_iff.mp (hkept t (mem_of_table ht)) p hp
      have hrun := Plan.run_supply_inputs (m := some s.next) hrec.unary rfl (.cons hg .nil)
      rw [hfaithful, forall_prop_of_true hsome, ← hrepeats g halike, kept_iff, hplan]
      simp only [Option.some.injEq, forall_eq']
      exact hrun ▸ Iff.rfl

theorem rightData_cases (s : Session) (l r : Table) :
    s.rightData l r ++ s.sources = s.sources ∨
      ∃ f, s.rightData l r ++ s.sources = (s.next, f) :: s.sources := by
  unfold rightData
  split
  · exact .inr ⟨r.frame, rfl⟩
  · exact .inl rfl

theorem right_root {l r : Table} {id : String} {q : Plan} {k : Nat} (hs : s.Sound)
    (hr : r ∈ s.tables) (hl : l.plan.isSome = true) (hq : r.rootOr id s.next = .ok (q, k)) :
    s.next ≤ k ∧ q.Below k ∧ (s.Kept r →
      ∃ g, (q.supply (s.rightData l r ++ s.sources)).run = .ok g ∧ g.Alike r.frame) := by
  rcases Table.rootOr_eq_ok hq with ⟨hplan, rfl⟩ | ⟨hplan, hsource, rfl⟩
  · refine ⟨le_rfl, hs r hr q hplan, ?_⟩
    intro hkept
    simpa [rightData, hplan] using kept_iff.mp hkept q hplan
  · refine ⟨Nat.le_succ s.next, hsource.below, ?_⟩
    intro _
    have hdata : s.rightData l r = [(s.next, r.frame)] := by simp [rightData, hl, hplan]
    rw [hdata]
    exact ⟨r.frame, hsource.run, .refl r.frame⟩

theorem call_merge {j : Nat} {m : MergeCall} (hs : s.Sound)
    (h : s.call (.merge i j m) = .ok s') :
    ∃ t, s.Grows s' t ∧ ((∀ u ∈ s.tables, s.Kept u) → s'.Kept t) := by
  obtain ⟨l, hl, h⟩ := bind_eq_ok.mp h
  obtain ⟨r, hr, h⟩ := bind_eq_ok.mp h
  obtain ⟨made, hmade, hs'⟩ := bind_eq_ok.mp h
  obtain rfl := Except.ok.inj hs'
  obtain ⟨t', n⟩ := made
  have hdata := s.rightData_cases l r
  cases hp : l.plan with
  | none =>
    obtain ⟨hplan, rfl⟩ := Table.merge_untracked hp hmade
    refine ⟨t', ⟨rfl, le_rfl, hdata, ?_⟩, fun _ ↦ kept_untracked hplan⟩
    intro p h
    rw [hplan] at h
    cases h
  | some p =>
    obtain ⟨q, k, op, hq, rfl, hplan, hcount, hrepeats⟩ := Table.merge_records hp hmade
    have hleft := hs l (mem_of_table hl) p hp
    obtain ⟨hk, hright, hrun⟩ := right_root hs (mem_of_table hr) (by rw [hp]; rfl) hq
    have hgrows : s.Grows (s.add (s.rightData l r) (t', k + 1)) t' := by
      refine ⟨rfl, Nat.le_succ_of_le hk, hdata, ?_⟩
      intro x hx
      obtain rfl := Option.some.inj (hplan.symm.trans hx)
      simp only [Plan.below_node, Option.some.injEq, forall_eq', List.mem_cons, List.not_mem_nil,
        or_false, forall_eq_or_imp, forall_eq]
      exact ⟨Nat.lt_succ_self k, hleft.mono (Nat.le_succ_of_le hk), hright.mono (Nat.le_succ k)⟩
    refine ⟨t', hgrows, ?_⟩
    intro hkept
    obtain ⟨f, hf, hfl⟩ := kept_iff.mp (hkept l (mem_of_table hl)) p hp
    obtain ⟨g, hg, hgr⟩ := hrun (hkept r (mem_of_table hr))
    rw [← hgrows.supply hleft] at hf
    rw [kept_iff]
    intro x hx
    obtain rfl := Option.some.inj (hplan.symm.trans hx)
    rw [Plan.run_supply_inputs hcount rfl (.cons hf (.cons hg .nil))]
    exact hrepeats f g hfl hgr

theorem call_kept (hs : s.Sound) (h : s.call c = .ok s') :
    s'.Sound ∧ ((∀ t ∈ s'.tables, s'.Kept t) ↔ (∀ t ∈ s.tables, s.Kept t) ∧ s.Faithful c) := by
  have hstep : ∃ t, s.Grows s' t ∧ ((∀ u ∈ s.tables, s.Kept u) → (s'.Kept t ↔ s.Faithful c)) := by
    cases c with
    | start f id =>
      obtain ⟨t, hgrows, hkept⟩ := call_start h
      exact ⟨t, hgrows, fun _ ↦ iff_of_true hkept trivial⟩
    | plain f =>
      obtain ⟨t, hgrows, hkept⟩ := call_plain h
      exact ⟨t, hgrows, fun _ ↦ iff_of_true hkept trivial⟩
    | verb i v => exact call_verb hs h
    | merge i j m =>
      obtain ⟨t, hgrows, hkept⟩ := call_merge hs h
      exact ⟨t, hgrows, fun hall ↦ iff_of_true (hkept hall) trivial⟩
  obtain ⟨t, hgrows, hnew⟩ := hstep
  refine ⟨hgrows.sound hs, ?_⟩
  rw [hgrows.kept hs]
  exact and_congr_right hnew

theorem run_kept {cs : List TableCall} (hs : s.Sound) (h : s.run cs = .ok s') :
    (∀ t ∈ s'.tables, s'.Kept t) ↔ (∀ t ∈ s.tables, s.Kept t) ∧ s.FaithfulRun cs := by
  induction cs generalizing s with
  | nil =>
    obtain rfl := Except.ok.inj h
    exact (and_iff_left trivial).symm
  | cons c cs ih =>
    obtain ⟨m, hm, hrun⟩ := bind_eq_ok.mp h
    obtain ⟨hsound, hstep⟩ := call_kept hs hm
    have hrest : (∀ s', s.call c = .ok s' → s'.FaithfulRun cs) ↔ m.FaithfulRun cs := by
      rw [hm]
      simp only [Except.ok.injEq, forall_eq']
    rw [ih hsound hrun, hstep, and_assoc, FaithfulRun, hrest]

/-- All tables of a session are kept by their plans just when all its calls were faithful. -/
theorem kept_iff_faithful {cs : List TableCall} (h : ({} : Session).run cs = .ok s) :
    (∀ t ∈ s.tables, s.Kept t) ↔ ({} : Session).FaithfulRun cs := by
  have hnone : ∀ {P : Table → Prop}, ∀ t ∈ ({} : Session).tables, P t := by
    intro P t ht
    cases ht
  rw [run_kept hnone h]
  exact and_iff_right hnone

def orders : Frame :=
  ⟨[(.text "k", .mixed [.text "b", .text "a", .text "b"]), (.text "v", .ints [1, 2, 3])],
    Frame.numbered 3⟩

def prices : Frame :=
  ⟨[(.text "k", .mixed [.text "a", .text "b"]), (.text "w", .ints [10, 20])], Frame.numbered 2⟩

def chain : List TableCall :=
  [.start orders "orders", .verb 0 (.groupBy ["k"] false "sum"), .plain prices,
    .verb 1 (.filter ⟨.compare "v" .ge (.int 2), rfl⟩), .verb 3 (.sort ["k"] (.bool true)),
    .merge 4 2 ⟨.on (.one "k"), "inner", (some "_x", some "_y")⟩,
    .verb 5 (.select ["k", "w"]), .verb 6 (.limit .head 1)]

theorem chain_faithful : ({} : Session).FaithfulRun chain := by
  have hstart : ∃ q, ({} : Session).call (.start orders "orders") =
      .ok ⟨[⟨orders, some q⟩], 1, [(0, orders)]⟩ := ⟨_, rfl⟩
  obtain ⟨q, hq⟩ := hstart
  have hlabels : ∀ l ∈ orders.labels, l.isIn [.text "k"] = false → ∃ n, l = .text n := by
    simp [orders, Frame.labels]
  have hanswer : Outcome.Succeeds (orders.inquire [.text "k"] false (.every "sum")) :=
    Outcome.succeeds_of_isOk (by decide +kernel)
  obtain ⟨f, hf⟩ := hanswer
  refine ⟨trivial, ?_⟩
  intro s hs
  obtain rfl := Except.ok.inj (hq.symm.trans hs)
  constructor
  · intro t ht _
    obtain rfl := Option.some.inj ht
    exact ⟨by decide, hlabels, f, f, hf, hf, .refl f⟩
  · simp [FaithfulRun, Faithful, Verb.Faithful]

theorem kept_iff_faithful_chain : ∃ s, ({} : Session).run chain = .ok s ∧
    ({} : Session).FaithfulRun chain ∧ ∀ t ∈ s.tables, s.Kept t := by
  have hrun : Outcome.Succeeds (({} : Session).run chain) :=
    Outcome.succeeds_of_isOk (by decide +kernel)
  obtain ⟨s, hs⟩ := hrun
  exact ⟨s, hs, chain_faithful, (kept_iff_faithful hs).mpr chain_faithful⟩

theorem groups_orders : orders.groups [.text "k"] true =
    .ok [⟨[.text "a"], [1]⟩, ⟨[.text "b"], [0, 2]⟩] := by
  have hsorted : Group.sorted [⟨[.text "b"], [0, 2]⟩, ⟨[.text "a"], [1]⟩] =
      [⟨[.text "a"], [1]⟩, ⟨[.text "b"], [0, 2]⟩] := by
    have hgt : Frame.keyOrder [.asc] [.text "b"] [.text "a"] = .gt := by decide
    simp [Group.sorted, List.mergeSort, List.MergeSort.Internal.splitInTwo, hgt]
  exact congrArg Except.ok hsorted

def sums : Frame :=
  ⟨[(.text "k", .mixed [.text "a", .text "b"]), (.text "v", .ints [2, 4])], Frame.numbered 2⟩

theorem inquire_orders : orders.inquire [.text "k"] true (.every "sum") = .ok sums := by
  rw [Frame.inquire_every (Inquiry.outputs_every (by decide) _ _), Frame.groupBy, groups_orders]
  rfl

def ordersSource : Plan := .node (some 0) (.source "orders" (some ["k", "v"]) none) []

def groupedSource : Plan :=
  .node (some 1) (.groupBy ["k"] [⟨"v", "sum", "v"⟩] [] none) [ordersSource]

theorem groupBy_orders : Table.groupBy [.text "k"] true (.every "sum") ⟨orders, some ordersSource⟩ 1 =
    .ok (⟨sums, some groupedSource⟩, 2) := by
  unfold Table.groupBy
  simp only [inquire_orders]
  rfl

/-- The order of sorted groups is not recorded: the plan makes them in the order of their rows. -/
theorem sorted_groups_not_kept : ∃ s t p g,
    ({} : Session).run [.start orders "orders", .verb 0 (.groupBy ["k"] true "sum")] = .ok s ∧
      t ∈ s.tables ∧ t.plan = some p ∧ (p.supply s.sources).run = .ok g ∧
      t.frame.rows = [[.text "a", .int 2], [.text "b", .int 4]] ∧
      g.rows = [[.text "b", .int 4], [.text "a", .int 2]] := by
  have hstart : ({} : Session).call (.start orders "orders") =
      .ok ⟨[⟨orders, some ordersSource⟩], 1, [(0, orders)]⟩ := rfl
  have hgroup : Session.call ⟨[⟨orders, some ordersSource⟩], 1, [(0, orders)]⟩
      (.verb 0 (.groupBy ["k"] true "sum")) =
        .ok ⟨[⟨orders, some ordersSource⟩, ⟨sums, some groupedSource⟩], 2, [(0, orders)]⟩ :=
    Outcome.bind_eq_ok.mpr ⟨_, rfl, Outcome.bind_eq_ok.mpr ⟨_, groupBy_orders, rfl⟩⟩
  have hrun : ({} : Session).run [.start orders "orders", .verb 0 (.groupBy ["k"] true "sum")] =
      .ok ⟨[⟨orders, some ordersSource⟩, ⟨sums, some groupedSource⟩], 2, [(0, orders)]⟩ := by
    simp only [run, hstart, hgroup, Outcome.ok_bind]
  exact ⟨_, ⟨sums, some groupedSource⟩, groupedSource, _, hrun, .tail _ (.head _), rfl, rfl, rfl, rfl⟩

end Session

end Gridplan
