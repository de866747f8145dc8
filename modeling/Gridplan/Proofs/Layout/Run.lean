import Gridplan.Proofs.Layout.Nodes
import Gridplan.Proofs.Optimize.Passes

namespace Gridplan.Layout

open Formula
open Outcome (Ensures)
open Plan (marksOf finished finishedList)

variable {sources : Sources} {s : Progress} {nodes : List Plan} {parts news : List Part}
  {m : Option Nat} {op : Operator} {is : List Plan} {P : Placement}

theorem Progress.find_eq_some {b : Block} (hf : s.find m = some b) :
    ∃ k, m = some k ∧ (k, b) ∈ s.shared := by
  cases m with
  | none => cases hf
  | some k =>
    obtain ⟨before, after, heq, -⟩ := List.lookup_eq_some_iff.mp hf
    exact ⟨k, rfl, by simp [heq]⟩

theorem Progress.find_eq_none (hm : s.shared.map Prod.fst = marksOf nodes) (hf : s.find m = none) :
    m.any ((marksOf nodes).contains ·) = false := by
  cases m with
  | none => rfl
  | some k =>
    have hnone : s.shared.lookup k = none := hf
    rw [List.lookup_eq_none_iff] at hnone
    rw [← hm]
    simp only [Option.any_some, List.contains_eq_mem, decide_eq_false_iff_not, List.mem_map,
      not_exists, not_and]
    intro x hx hk
    simpa [hk] using hnone x hx

/-- A statement `I` about what is laid out so far and for which nodes, and a statement `J` about a
node and its block, that hold on when one more node of a plan is laid out. -/
structure Kept (sources : Sources) (root : Plan) (I : Progress → List Plan → Prop)
    (J : Progress → Plan → Block → Prop) : Prop where
  known : ∀ {s nodes}, I s nodes → ∀ x ∈ s.shared, ∀ n ∈ root.occurrences, n.mark = some x.1 →
    J s n x.2
  old : ∀ {s n b} m P, J s n b → J (s.add m P) n b
  step : ∀ {s nodes m op is bs P}, .node m op is ∈ root.occurrences → I s nodes →
    List.Forall₂ (J s) is bs → placeNode sources s.counter op is bs = .ok P →
      I (s.add m P) (nodes ++ [.node m op is]) ∧ J (s.add m P) (.node m op is) P.block

section Kept

variable {root : Plan} {I : Progress → List Plan → Prop} {J : Progress → Plan → Block → Prop}

structure Reached (I : Progress → List Plan → Prop) (s : Progress) (nodes : List Plan) : Prop where
  marks : s.shared.map Prod.fst = marksOf nodes
  holds : I s nodes

theorem Reached.add (h : Reached I s nodes) (hI : I (s.add m P) (nodes ++ [.node m op is])) :
    Reached I (s.add m P) (nodes ++ [.node m op is]) := by
  refine ⟨?_, hI⟩
  rw [Plan.marksOf_append, ← h.marks]
  cases m <;> rfl

def Extends (sources : Sources) (I : Progress → List Plan → Prop)
    (J : Progress → Plan → Block → Prop) (p : Plan) : Prop :=
  ∀ s nodes, Reached I s nodes → Ensures (placePlan sources p s) fun x ↦
    Reached I x.2 (nodes ++ finished (marksOf nodes) p) ∧ J x.2 p x.1 ∧
      ∀ n b, J s n b → J x.2 n b

theorem placeInputs_extends (his : ∀ i ∈ is, Extends sources I J i) (h : Reached I s nodes) :
    Ensures (placeInputs sources is s) fun x ↦
      Reached I x.2 (nodes ++ finishedList (marksOf nodes) is) ∧ List.Forall₂ (J x.2) is x.1 ∧
        ∀ n b, J s n b → J x.2 n b := by
  induction is generalizing s nodes with
  | nil => exact .ok ⟨by simpa [finishedList] using h, .nil, fun n b hb ↦ hb⟩
  | cons i is ih =>
    obtain ⟨hi, his⟩ := List.forall_mem_cons.mp his
    rw [placeInputs]
    refine (hi s nodes h).bind ?_
    rintro ⟨b, s'⟩ ⟨h', hb, hold⟩
    refine (ih his h').bind ?_
    rintro ⟨bs, s''⟩ ⟨h'', hbs, hold'⟩
    refine .ok ⟨?_, .cons (hold' i b hb) hbs, fun n b hn ↦ hold' n b (hold n b hn)⟩
    rw [Plan.finishedList_cons, ← List.append_assoc, ← Plan.marksOf_append]
    exact h''

theorem Kept.placePlan (h : Kept sources root I J) {p : Plan} (hp : p ∈ root.occurrences) :
    Extends sources I J p := by
  induction p with
  | node m op is ih =>
    intro s nodes hs
    rw [Layout.placePlan, finished]
    split
    · next b hf =>
      -- a node that was laid out before
      obtain ⟨k, rfl, hk⟩ := Progress.find_eq_some hf
      have hmark : k ∈ marksOf nodes := hs.marks ▸ List.mem_map_of_mem hk
      rw [if_pos (by simpa using hmark), List.append_nil]
      exact .ok ⟨hs, h.known hs.holds _ hk _ hp rfl, fun n b hb ↦ hb⟩
    · next hf =>
      rw [if_neg (Bool.eq_false_iff.mp (Progress.find_eq_none hs.marks hf)), ← List.append_assoc]
      have his : ∀ i ∈ is, Extends sources I J i := fun i hi ↦
        ih i hi (Plan.mem_occurrences_input hp i hi)
      refine (placeInputs_extends his hs).bind ?_
      rintro ⟨bs, s'⟩ ⟨hs', hbs, hold⟩ x hx
      obtain ⟨P, hP, hx⟩ := Outcome.bind_eq_ok.mp hx
      obtain rfl := Except.ok.inj hx
      obtain ⟨hI, hJ⟩ := h.step hp hs'.holds hbs hP
      exact ⟨hs'.add hI, hJ, fun n b hn ↦ h.old m P (hold n b hn)⟩

end Kept

structure Stands (parts : List Part) (node : Plan) (number : Nat) (b : Block) : Prop where
  belongs : Belongs node.kind number b.sheet
  rooted : Rooted b
  sheet : b.sheet ∈ parts.map Part.name
  titled : node.kind ≠ .pivot → b.range.colEnd + 1 = b.schema.length ∧
    ∃ p ∈ parts, p.name = b.sheet ∧ p.Titled b.schema

theorem Stands.mono {n : Plan} {i : Nat} {b : Block} (h : Stands parts n i b)
    (hsub : parts ⊆ news) : Stands news n i b where
  belongs := h.belongs
  rooted := h.rooted
  sheet := List.map_subset _ hsub h.sheet
  titled := fun hk ↦ by
    obtain ⟨hw, p, hp, hname, ht⟩ := h.titled hk
    exact ⟨hw, p, hsub hp, hname, ht⟩

structure Run (s : Progress) (nodes : List Plan) (parts : List Part) : Prop where
  edits : s.edits = parts.flatMap Part.edits
  chained : Chained [] parts
  nodup : (parts.map Part.name).Nodup
  numbered : ∀ p ∈ parts, ∃ kind, ∃ n < s.counter, Belongs kind n p.name
  counter : s.counter = nodes.length
  shared : ∀ x ∈ s.shared, x.2 ∈ s.blocks
  blocks : List.Forall₂ (fun x b ↦ Stands parts x.1 x.2 b) nodes.zipIdx s.blocks

theorem run_nil : Run {} [] [] where
  edits := rfl
  chained := trivial
  nodup := List.nodup_nil
  numbered := by simp
  counter := rfl
  shared := by simp
  blocks := .nil

theorem Run.block (h : Run s nodes parts) {b : Block} (hb : b ∈ s.blocks) :
    Rooted b ∧ b.sheet ∈ parts.map Part.name := by
  obtain ⟨x, -, hx⟩ := exists_of_forall₂ h.blocks hb
  exact ⟨hx.rooted, hx.sheet⟩

theorem Run.add (h : Run s nodes parts) {schema : List String} {last : Nat}
    (hP : Placed op.kind s.counter (parts.map Part.name) schema last P news) :
    Run (s.add m P) (nodes ++ [.node m op is]) (parts ++ news) where
  edits := by simp [Progress.add, h.edits, hP.edits]
  chained := h.chained.append (by simpa using hP.chained)
  nodup := by
    rw [List.map_append]
    refine List.nodup_append'.mpr ⟨h.nodup, hP.nodup, fun name hold hnew ↦ ?_⟩
    -- the old sheets are for nodes with smaller numbers
    obtain ⟨p, hp, rfl⟩ := List.mem_map.mp hold
    obtain ⟨q, hq, hqp⟩ := List.mem_map.mp hnew
    obtain ⟨kind, n, hn, hbelongs⟩ := h.numbered p hp
    have := hbelongs.number_eq (hqp ▸ hP.belongs q hq)
    omega
  numbered := by
    intro p hp
    rcases List.mem_append.mp hp with hp | hp
    · obtain ⟨kind, n, hn, hbelongs⟩ := h.numbered p hp
      exact ⟨kind, n, Nat.lt_succ_of_lt hn, hbelongs⟩
    · exact ⟨op.kind, s.counter, Nat.lt_succ_self _, hP.belongs p hp⟩
  counter := by simp [Progress.add, h.counter]
  shared := by
    intro x hx
    cases m with
    | none => exact List.mem_append_left _ (h.shared x hx)
    | some k =>
      rcases List.mem_cons.mp hx with rfl | hx
      · exact List.mem_append_right _ (by simp)
      · exact List.mem_append_left _ (h.shared x hx)
  blocks := by
    rw [List.zipIdx_append]
    refine List.rel_append (h.blocks.imp fun x b hx ↦ hx.mono (List.subset_append_left ..)) ?_
    refine .cons ⟨?_, hP.rooted, ?_, ?_⟩ .nil
    · obtain ⟨q, hq, hname⟩ := List.mem_map.mp hP.block
      have := hname ▸ hP.belongs q hq
      simpa [h.counter, Plan.kind, Plan.op] using this
    · simp only [List.map_append, List.mem_append]
      exact .inr hP.block
    · intro hk
      obtain ⟨hw, p, hp, hname, ht⟩ := hP.titled hk
      exact ⟨hw, p, List.mem_append_right _ hp, hname, ht⟩

theorem kept_run {root : Plan} (hroot : root.Built) :
    Kept sources root (fun s nodes ↦ ∃ parts, Run s nodes parts) (fun s _ b ↦ b ∈ s.blocks) where
  known := by
    rintro s nodes ⟨parts, h⟩ x hx - - -
    exact h.shared x hx
  old := fun _ _ hb ↦ List.mem_append_left _ hb
  step := by
    rintro s nodes m op is bs P hp ⟨parts, h⟩ hbs hP
    obtain ⟨⟨ht, -⟩, -⟩ := Plan.built_node.mp (Plan.all_of_mem hroot hp)
    have hblocks : ∀ b ∈ bs, Rooted b ∧ b.sheet ∈ parts.map Part.name := fun b hb ↦
      h.block (forall_mem_of_forall₂ hbs b hb)
    obtain ⟨_, news, hplaced, -⟩ := placeNode_placed sources ht is hblocks P hP
    exact ⟨⟨_, h.add hplaced⟩, List.mem_append_right _ (by simp)⟩

def chosen (p : Plan) (optimized : Bool) : Outcome Plan := if optimized then p.optimize else .ok p

theorem layOut_eq (p : Plan) (sources : Sources) (optimized : Bool) :
    layOut p sources optimized =
      chosen p optimized >>= fun q ↦ placePlan sources q {} >>= fun x ↦ .ok x.2 := by
  cases optimized <;> rfl

variable {p q : Plan} {optimized : Bool}

theorem chosen_built (hp : p.Built) (h : chosen p optimized = .ok q) : q.Built := by
  cases optimized with
  | false =>
    obtain rfl := Except.ok.inj h
    exact hp
  | true => exact (Optimize.optimize_preserves Optimize.preserved_kept hp h).1

theorem chosen_coherent (hp : p.Built) (hc : p.Coherent) (h : chosen p optimized = .ok q) :
    q.Coherent := by
  cases optimized with
  | false =>
    obtain rfl := Except.ok.inj h
    exact hc
  | true => exact (Optimize.coherent_of_optimize hp hc h).2

theorem Kept.layOut {I : Plan → Progress → List Plan → Prop}
    {J : Plan → Progress → Plan → Block → Prop} (h : layOut p sources optimized = .ok s)
    (hI : ∀ q, I q {} []) (hkept : ∀ q, chosen p optimized = .ok q → Kept sources q (I q) (J q)) :
    ∃ q, chosen p optimized = .ok q ∧ I q s (q.finished []) := by
  rw [layOut_eq] at h
  obtain ⟨q, hq, h⟩ := Outcome.bind_eq_ok.mp h
  obtain ⟨x, hplace, h⟩ := Outcome.bind_eq_ok.mp h
  obtain rfl := Except.ok.inj h
  have hx := (hkept q hq).placePlan (Plan.mem_occurrences_self q) {} [] ⟨rfl, hI q⟩ x hplace
  exact ⟨q, hq, by simpa using hx.1.holds⟩

theorem run_of_layOut (hp : p.Built) (h : layOut p sources optimized = .ok s) :
    ∃ q, chosen p optimized = .ok q ∧ ∃ parts, Run s (q.finished []) parts :=
  Kept.layOut h (fun _ ↦ ⟨[], run_nil⟩) fun _ hq ↦ kept_run (chosen_built hp hq)

/-- In every layout of a plan, the block of each node that is not a pivot is as wide as its schema
and as its sheet, which is created once and has the schema as its only header. -/
theorem layOut_headed (hp : p.Built) (h : layOut p sources optimized = .ok s) :
    ∃ q, chosen p optimized = .ok q ∧
      List.Forall₂ (fun n b ↦ n.kind ≠ .pivot → Headed s.edits b) (q.finished []) s.blocks := by
  obtain ⟨q, hq, parts, hrun⟩ := run_of_layOut hp h
  refine ⟨q, hq, ?_⟩
  have hblocks : List.Forall₂ (fun n b ↦ n.kind ≠ .pivot → Headed s.edits b)
      ((q.finished []).zipIdx.map Prod.fst) s.blocks := by
    refine List.forall₂_map_left_iff.mpr (hrun.blocks.imp fun x b hx hk ↦ ?_)
    obtain ⟨hwidth, part, hpart, hname, ht⟩ := hx.titled hk
    rw [hrun.edits]
    exact headed_of_titled hrun.chained hrun.nodup hpart hname ht hx.rooted.2 hwidth
  rwa [List.zipIdx_map_fst] at hblocks

def mirrored : Plan :=
  let source := Plan.node (some 0) (.source "t" (some ["a", "b"]) none) []
  let joined := Plan.node (some 1) (.join ["a"] ["a"] .inner ("_x", "_y")) [source, source]
  .node (some 3) (.filter (.binary ">" (.column "a") (.literal (.int 0))))
    [.node (some 2) (.select ["a", "b"] none) [joined]]

theorem built_mirrored : mirrored.Built := by
  simp [Plan.built_node, mirrored, Operator.isTyped, Operator.Accepts,
    Plan.Offers, Plan.schema?, Expr.isFilled, Expr.columns]

theorem layOut_mirrored (optimized : Bool) : ∃ s, layOut mirrored [] optimized = .ok s :=
  Outcome.succeeds_of_isOk (by cases optimized <;> decide +kernel)

theorem layOut_headed_mirrored : mirrored.Built ∧ ∃ s q, layOut mirrored [] true = .ok s ∧
    mirrored.optimize = .ok q ∧
    List.Forall₂ (fun n b ↦ n.kind ≠ .pivot → Headed s.edits b) (q.finished []) s.blocks := by
  obtain ⟨s, hs⟩ := layOut_mirrored true
  obtain ⟨q, hq, hblocks⟩ := layOut_headed built_mirrored hs
  exact ⟨built_mirrored, s, q, hs, hq, hblocks⟩

/-- In every layout of a plan with shared nodes, each edit changes a sheet that was created before
and reads that sheet and others that were created before, and each node of the plan is laid out
exactly once. -/
theorem layOut_scoped (hp : p.Built) (hc : p.Coherent) (h : layOut p sources optimized = .ok s) :
    Scoped s.edits ∧ ∃ q nodes, chosen p optimized = .ok q ∧ Plan.Enumerates q nodes ∧
      List.Forall₂ (fun x b ↦ Belongs x.1.kind x.2 b.sheet) nodes.zipIdx s.blocks ∧
      s.counter = q.objects := by
  obtain ⟨q, hq, parts, hrun⟩ := run_of_layOut hp h
  have henum := (chosen_coherent hp hc hq).enumerates
  refine ⟨?_, q, _, hq, henum, hrun.blocks.imp fun x b hx ↦ hx.belongs, ?_⟩
  · rw [hrun.edits]
    exact hrun.chained.scoped
  · rw [hrun.counter, henum.length]

theorem coherent_mirrored : mirrored.Coherent := by
  refine .of_pairwise ?_ (by decide +kernel)
  simp [mirrored, Plan.occurrences, Plan.occurrencesList, Plan.mark]

theorem layOut_scoped_mirrored : mirrored.Built ∧ mirrored.Coherent ∧
    ∃ s q nodes, layOut mirrored [] true = .ok s ∧ Scoped s.edits ∧ mirrored.optimize = .ok q ∧
      Plan.Enumerates q nodes ∧
      List.Forall₂ (fun x b ↦ Belongs x.1.kind x.2 b.sheet) nodes.zipIdx s.blocks ∧
      s.counter = q.objects := by
  obtain ⟨s, hs⟩ := layOut_mirrored true
  obtain ⟨hscoped, q, nodes, hq, henum, hblocks, hcount⟩ :=
    layOut_scoped built_mirrored coherent_mirrored hs
  exact ⟨built_mirrored, coherent_mirrored, s, q, nodes, hs, hscoped, hq, henum, hblocks, hcount⟩

end Gridplan.Layout
