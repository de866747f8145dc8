import Gridplan.Proofs.Layout.Order
import Gridplan.Proofs.Optimize.Leaves

namespace Gridplan

/-- The sheets that a node with an operator is laid out on. -/
def Operator.sheetCount : Operator → Nat
  | .join _ _ .inner _ => 2
  | .join _ _ .outer _ => 3
  | .pivot .. => 2
  | _ => 1

theorem Operator.sheetCount_filed (op : Operator) : op.filed.sheetCount = op.sheetCount := by
  cases op with
  | join leftOn rightOn kind suffixes => cases kind <;> rfl
  | _ => rfl

namespace Plan

variable {m : Option Nat} {op : Operator} {is js ns ks : List Plan} {p q : Plan} {seen : List Nat}

def sheetsOf (ns : List Plan) : Nat := (ns.map (·.op.sheetCount)).sum

@[simp] theorem sheetsOf_nil : sheetsOf [] = 0 := rfl

@[simp] theorem sheetsOf_cons : sheetsOf (p :: ns) = p.op.sheetCount + sheetsOf ns := rfl

@[simp] theorem sheetsOf_append (ns ks : List Plan) : sheetsOf (ns ++ ks) = sheetsOf ns + sheetsOf ks := by
  simp [sheetsOf]

mutual

/-- The nodes that going through a plan passes over: all below a mark met before. -/
def skipped (seen : List Nat) : Plan → List Plan
  | .node m op is =>
    if m.any (seen.contains ·) then occurrences (.node m op is) else skippedList seen is

def skippedList (seen : List Nat) : List Plan → List Plan
  | [] => []
  | p :: ps => skipped seen p ++ skippedList (marksOf (finished seen p) ++ seen) ps

end

def bulk (p : Plan) : Nat := sheetsOf p.occurrences

def saved (p : Plan) : Nat := sheetsOf (p.skipped [])

theorem sheetsOf_finishedList (seen : List Nat)
    (ih : ∀ i ∈ is, ∀ seen, sheetsOf (finished seen i) + sheetsOf (skipped seen i) =
      sheetsOf i.occurrences) :
    sheetsOf (finishedList seen is) + sheetsOf (skippedList seen is) =
      sheetsOf (is.flatMap occurrences) := by
  induction is generalizing seen with
  | nil => rfl
  | cons i is ihs =>
    obtain ⟨hi, his⟩ := List.forall_mem_cons.mp ih
    have hfirst := hi seen
    have hrest := ihs (marksOf (finished seen i) ++ seen) his
    simp only [finishedList_cons, skippedList, List.flatMap_cons, sheetsOf_append]
    omega

theorem sheetsOf_finished (p : Plan) (seen : List Nat) :
    sheetsOf (finished seen p) + sheetsOf (skipped seen p) = sheetsOf p.occurrences := by
  induction p generalizing seen with
  | node m op is ih =>
    rw [finished, skipped]
    split
    · rw [sheetsOf_nil, Nat.zero_add]
    · have his := sheetsOf_finishedList seen ih
      simp only [occurrences_node, sheetsOf_append, sheetsOf_cons, sheetsOf_nil]
      omega

theorem bulk_node (m : Option Nat) (op : Operator) (is : List Plan) :
    bulk (.node m op is) = op.sheetCount + (is.map bulk).sum := by
  have his : sheetsOf (is.flatMap occurrences) = (is.map bulk).sum := by
    induction is with
    | nil => rfl
    | cons i is ih => rw [List.flatMap_cons, sheetsOf_append, ih, List.map_cons, List.sum_cons, bulk]
  rw [bulk, occurrences_node, sheetsOf_cons, his]
  rfl

theorem bulk_filed (p : Plan) : p.filed.bulk = p.bulk := by
  induction p with
  | node m op is ih =>
    rw [filed_node, bulk_node, bulk_node, Operator.sheetCount_filed, List.map_map]
    exact congrArg (_ + ·.sum) (List.map_congr_left ih)

theorem bulk_inputs (h : List.Forall₂ (fun p q : Plan ↦ q.bulk ≤ p.bulk) is js) :
    bulk (.node m op js) ≤ bulk (.node m op is) := by
  have hsum : (js.map bulk).sum ≤ (is.map bulk).sum := by
    induction h with
    | nil => exact le_rfl
    | cons h _ ih =>
      rw [List.map_cons, List.sum_cons, List.map_cons, List.sum_cons]
      exact Nat.add_le_add h ih
  rw [bulk_node, bulk_node]
  exact Nat.add_le_add_left hsum _

theorem mem_of_mem_finishedList {x : Plan}
    (ih : ∀ i ∈ is, ∀ seen, ∀ x ∈ finished seen i, x ∈ i.occurrences)
    (hx : x ∈ finishedList seen is) : x ∈ is.flatMap occurrences := by
  induction is generalizing seen with
  | nil => cases hx
  | cons i is ihs =>
    obtain ⟨hi, his⟩ := List.forall_mem_cons.mp ih
    rw [List.flatMap_cons]
    rcases List.mem_append.mp hx with hx | hx
    · exact List.mem_append_left _ (hi seen x hx)
    · exact List.mem_append_right _ (ihs his hx)

theorem mem_of_mem_finished {x : Plan} (hx : x ∈ finished seen p) : x ∈ p.occurrences := by
  induction p generalizing seen x with
  | node m op is ih =>
    rw [finished] at hx
    split at hx
    · cases hx
    · rw [occurrences_node]
      rcases List.mem_append.mp hx with hx | hx
      · exact List.mem_cons_of_mem _ (mem_of_mem_finishedList (fun i hi seen x ↦ ih i hi) hx)
      · rw [List.mem_singleton.mp hx]
        exact List.mem_cons_self

/-- Whether a walk that has met some marks meets none of them, and no mark twice. -/
def Unmet (seen : List Nat) (places : List Plan) : Prop :=
  (marksOf places).Nodup ∧ ∀ k ∈ marksOf places, k ∉ seen

theorem Unmet.append (h : Unmet seen (ns ++ ks)) :
    Unmet seen ns ∧ Unmet (marksOf ns ++ seen) ks := by
  obtain ⟨hnodup, hseen⟩ := h
  rw [marksOf_append] at hnodup hseen
  obtain ⟨hks, hns, hdisjoint⟩ := List.nodup_append'.mp hnodup
  refine ⟨⟨hns, fun k hk ↦ hseen k (List.mem_append_right _ hk)⟩, hks, ?_⟩
  intro k hk
  rw [List.mem_append, not_or]
  exact ⟨fun hk' ↦ hdisjoint hk hk', hseen k (List.mem_append_left _ hk)⟩

theorem Unmet.mono {met : List Nat} (h : Unmet met ns) (hsub : seen ⊆ met) : Unmet seen ns :=
  ⟨h.1, fun k hk hseen ↦ h.2 k hk (hsub hseen)⟩

theorem skippedList_of_unmet
    (ih : ∀ i ∈ is, ∀ seen, Unmet seen i.occurrences → skipped seen i = [])
    (h : Unmet seen (is.flatMap occurrences)) : skippedList seen is = [] := by
  induction is generalizing seen with
  | nil => rfl
  | cons i is ihs =>
    obtain ⟨hi, his⟩ := List.forall_mem_cons.mp ih
    rw [List.flatMap_cons] at h
    obtain ⟨hfirst, hrest⟩ := h.append
    have hmarks : marksOf (finished seen i) ⊆ marksOf i.occurrences := by
      intro k hk
      obtain ⟨x, hx, hxk⟩ := mem_marksOf.mp hk
      exact mem_marksOf.mpr ⟨x, mem_of_mem_finished hx, hxk⟩
    rw [skippedList, hi seen hfirst, List.nil_append]
    refine ihs his (hrest.mono (List.append_subset.mpr ⟨?_, List.subset_append_right _ _⟩))
    exact List.Subset.trans hmarks (List.subset_append_left _ _)

theorem skipped_of_unmet (h : Unmet seen p.occurrences) : skipped seen p = [] := by
  induction p generalizing seen with
  | node m op is ih =>
    rw [occurrences_node, ← List.singleton_append] at h
    obtain ⟨hself, hrest⟩ := h.append
    have hnew : ¬ m.any (seen.contains ·) = true := by
      intro hany
      obtain ⟨k, rfl, hk⟩ := (Option.any_eq_true ..).mp hany
      exact hself.2 k (mem_marksOf.mpr ⟨_, List.mem_singleton_self _, rfl⟩) (by simpa using hk)
    rw [skipped, if_neg hnew]
    exact skippedList_of_unmet (fun i hi seen ↦ ih i hi)
      (hrest.mono (List.subset_append_right _ _))

theorem saved_of_nodup (h : (marksOf p.occurrences).Nodup) : p.saved = 0 := by
  rw [saved, skipped_of_unmet ⟨h, fun k _ hk ↦ absurd hk List.not_mem_nil⟩, sheetsOf_nil]

end Plan

namespace Optimize

open Plan

variable {m : Option Nat} {op : Operator} {is : List Plan} {p q : Plan}

theorem Rewrite.bulk_le (h : Rewrite op is q) : q.bulk ≤ bulk (.node m op is) := by
  cases h <;> simp [fresh, bulk_node, Operator.sheetCount]

theorem preserved_bulk : Preserved fun p q ↦ q.bulk ≤ p.bulk where
  refl := fun _ ↦ le_rfl
  trans := fun _ _ _ hpq hqr ↦ hqr.trans hpq
  rewrite := fun m _ _ _ _ _ hjs hq ↦ (hq.bulk_le (m := m)).trans (bulk_inputs hjs)
  rebuild := fun _ _ _ _ _ hjs ↦ (bulk_filed _).trans_le (bulk_inputs hjs)

end Optimize

namespace Layout

open Formula
open Plan (marksOf finished finishedList sheetsOf)
open Outcome (Ensures)

variable {sources : Sources} {s s' : Progress} {nodes : List Plan} {parts : List Part}
  {m : Option Nat} {op : Operator} {is : List Plan} {p : Plan} {counter rows cols last : Nat}
  {sheet : String} {schema : List String} {good : Ref → Prop} {P : Placement} {e : Step}

def createdCount (es : List Step) : Nat := (es.filterMap Edit.created).length

theorem createdCount_append (es fs : List Step) :
    createdCount (es ++ fs) = createdCount es + createdCount fs := by
  simp [createdCount]

theorem Drawn.created_eq (h : Drawn good sheet rows cols e) : e.created = none := by
  obtain ⟨row, col, t, rfl, -⟩ := h
  rfl

def Plainly (parts : List Part) : Prop := ∀ p ∈ parts, ∀ e ∈ p.body, e.created = none

theorem createdCount_parts (h : Plainly parts) :
    createdCount (parts.flatMap Part.edits) = parts.length := by
  induction parts with
  | nil => rfl
  | cons p ps ih =>
    obtain ⟨hp, hps⟩ := List.forall_mem_cons.mp h
    have hbody : p.body.filterMap Edit.created = [] := List.filterMap_eq_nil_iff.mpr hp
    have hpart : createdCount p.edits = 1 := by
      rw [createdCount, Part.edits, List.filterMap_cons, hbody]
      rfl
    rw [List.flatMap_cons, createdCount_append, ih hps, hpart, List.length_cons, Nat.add_comm]

theorem plainly_opened {body : List Step} (h : ∀ e ∈ body, Drawn good sheet rows cols e) {n : Nat} :
    ∀ e ∈ (Part.opened sheet n schema body).body, e.created = none := by
  refine List.forall_mem_cons.mpr ⟨rfl, ?_⟩
  intro e he
  exact (h e he).created_eq

theorem Ends.createdCount_eq (h : Ends parts good sheet rows last schema P) (hparts : Plainly parts) :
    createdCount P.edits = parts.length + 1 := by
  obtain ⟨body, hedits, hbody⟩ := h.edits
  have hall : P.edits = (parts ++ [Part.opened sheet rows schema body]).flatMap Part.edits := by
    rw [hedits, List.flatMap_append, List.flatMap_singleton, Part.edits_opened]
  rw [hall, createdCount_parts, List.length_append, List.length_singleton]
  exact List.forall_mem_append.mpr ⟨hparts, List.forall_mem_singleton.mpr (plainly_opened hbody)⟩

theorem Ends.createdCount_sole (h : Ends [] good sheet rows last schema P) :
    createdCount P.edits = 1 :=
  h.createdCount_eq fun _ hp ↦ absurd hp List.not_mem_nil

theorem join_createdCount {d : Sides} {leftOn rightOn : List String} {suffixes}
    (hl : Rooted d.left) (hr : Rooted d.right) (kind : JoinKind) :
    Ensures (join counter kind d) fun P ↦
      createdCount P.edits = (Operator.join leftOn rightOn kind suffixes).sheetCount := by
  cases kind with
  | left => exact (leftJoin_drawn hl).mono fun P h ↦ h.createdCount_sole
  | right => exact (rightJoin_drawn hr).mono fun P h ↦ h.createdCount_sole
  | inner =>
    refine (innerJoin_drawn hl).mono fun P h ↦ ?_
    obtain ⟨J, first, -, hfirst, hends⟩ := h
    exact hends.createdCount_eq (List.forall_mem_singleton.mpr (plainly_opened hfirst))
  | outer =>
    refine (outerJoin_drawn hl hr).mono fun P h ↦ ?_
    obtain ⟨J, A, first, second, -, -, hfirst, hsecond, hends⟩ := h
    exact hends.createdCount_eq (List.forall_mem_cons.mpr
      ⟨plainly_opened hfirst, List.forall_mem_singleton.mpr (plainly_opened hsecond)⟩)

theorem placeNode_createdCount (ht : op.isTyped = true) (is : List Plan) {blocks : List Block}
    (hblocks : ∀ b ∈ blocks, Rooted b) :
    Ensures (placeNode sources counter op is blocks) fun P ↦
      createdCount P.edits = op.sheetCount := by
  refine (placeNode_shaped sources ht is hblocks).mono fun P hP ↦ ?_
  cases hP with
  | source h =>
    rw [(source_drawn _ _ P h).1]
    rfl
  | join hbs h =>
    subst hbs
    exact join_createdCount (hblocks _ (by simp)) (hblocks _ (by simp)) _ P h
  | pivot _ h =>
    obtain ⟨name, t, body, rows, cols, hedits, -, hbody, -⟩ := pivot_drawn _ _ _ _ _ _ P h
    -- the helper has one formula, and the pivot those of its body
    rw [hedits, createdCount_parts]
    · rfl
    · refine List.forall_mem_cons.mpr ⟨List.forall_mem_singleton.mpr rfl, ?_⟩
      refine List.forall_mem_singleton.mpr (List.forall_mem_cons.mpr ⟨rfl, ?_⟩)
      intro e he
      exact (hbody e he).created_eq
  | sole hop _ _ _ _ hends =>
    rw [hends.createdCount_sole]
    cases op with
    | source | join | pivot | bare | loose => cases hop
    | _ => rfl

theorem kept_createdCount {root : Plan} (hroot : root.Built) :
    Kept sources root (fun s nodes ↦ (∃ parts, Run s nodes parts) ∧
      createdCount s.edits = sheetsOf nodes) fun s _ b ↦ b ∈ s.blocks where
  known := by
    rintro s nodes ⟨⟨parts, h⟩, -⟩ x hx - - -
    exact h.shared x hx
  old := fun _ _ hb ↦ List.mem_append_left _ hb
  step := by
    rintro s nodes m op is bs P hp ⟨⟨parts, hrun⟩, h⟩ hbs hP
    obtain ⟨⟨ht, -⟩, -⟩ := Plan.built_node.mp (Plan.all_of_mem hroot hp)
    obtain ⟨hrun', hblock⟩ := (kept_run hroot).step hp ⟨parts, hrun⟩ hbs hP
    have hroots : ∀ b ∈ bs, Rooted b := fun b hb ↦
      (hrun.block (forall_mem_of_forall₂ hbs b hb)).1
    have hadd : (s.add m P).edits = s.edits ++ P.edits := rfl
    refine ⟨⟨hrun', ?_⟩, hblock⟩
    rw [hadd, createdCount_append, h, placeNode_createdCount ht is hroots P hP,
      Plan.sheetsOf_append _ [_], Plan.sheetsOf_cons, Plan.sheetsOf_nil]
    rfl

def Progress.sheetCount (s : Progress) : Nat := (s.written.filterMap Edit.created).length

theorem Progress.sheetCount_eq (s : Progress) : s.sheetCount = createdCount s.edits := by
  rw [sheetCount, written, written_created, createdCount]

theorem sheetCount_of_layOut {optimized : Bool} (hp : p.Built)
    (h : layOut p sources optimized = .ok s) :
    ∃ q, chosen p optimized = .ok q ∧ s.sheetCount + q.saved = q.bulk := by
  obtain ⟨q, hq, -, hcount⟩ := Kept.layOut h (fun _ ↦ ⟨⟨[], run_nil⟩, rfl⟩) fun q hq ↦
    kept_createdCount (chosen_built hp hq)
  refine ⟨q, hq, ?_⟩
  rw [Progress.sheetCount_eq, hcount]
  exact q.sheetsOf_finished []

/-- Optimisation costs no sheets just when at most as many are lost to copies of shared nodes as
belong to nodes that the passes leave out; a plan that shares nothing loses none. -/
theorem layOut_sheets_optimized (hp : p.Built) (h : layOut p sources false = .ok s)
    (h' : layOut p sources true = .ok s') :
    ∃ q, p.optimize = .ok q ∧ s.sheetCount + p.saved = p.bulk ∧ s'.sheetCount + q.saved = q.bulk ∧
      q.bulk ≤ p.bulk ∧
      (s'.sheetCount ≤ s.sheetCount ↔ p.saved ≤ q.saved + (p.bulk - q.bulk)) ∧
      ((marksOf p.occurrences).Nodup → s'.sheetCount ≤ s.sheetCount) := by
  obtain ⟨p', hp', hcount⟩ := sheetCount_of_layOut hp h
  obtain rfl := Except.ok.inj hp'
  obtain ⟨q, hq, hcount'⟩ := sheetCount_of_layOut hp h'
  have hbulk : q.bulk ≤ p.bulk := (Optimize.optimize_preserves Optimize.preserved_bulk hp hq).2
  have hiff : s'.sheetCount ≤ s.sheetCount ↔ p.saved ≤ q.saved + (p.bulk - q.bulk) := by omega
  refine ⟨q, hq, hcount, hcount', hbulk, hiff, ?_⟩
  intro hnodup
  rw [hiff, Plan.saved_of_nodup hnodup]
  exact Nat.zero_le _

theorem layOut_sheets_optimized_mirrored : mirrored.Built ∧ ∃ s s' q,
    layOut mirrored [] false = .ok s ∧ layOut mirrored [] true = .ok s' ∧
      mirrored.optimize = .ok q ∧ mirrored.saved = 1 ∧ q.saved = 1 ∧
      s'.sheetCount ≤ s.sheetCount := by
  obtain ⟨s, hs⟩ := layOut_mirrored false
  obtain ⟨s', hs'⟩ := layOut_mirrored true
  obtain ⟨q, hq, -, -, -, hiff, -⟩ := layOut_sheets_optimized built_mirrored hs hs'
  have hsaved : mirrored.saved = 1 := by decide
  have hsaved' : mirrored.optimize.toOption.map Plan.saved = some 1 := by decide +kernel
  rw [hq] at hsaved'
  have hqsaved : q.saved = 1 := Option.some.inj hsaved'
  exact ⟨built_mirrored, s, s', q, hs, hs', hq, hsaved, hqsaved, hiff.mpr (by omega)⟩

def recalled : Plan :=
  let first := Plan.node (some 1) (.limit 5 .head)
    [.node (some 0) (.source "t" (some ["a"]) none) []]
  .node (some 4) .union
    [.node (some 3) (.limit 2 .head) [.node (some 2) (.sort [⟨"a", .asc⟩] none none) [first]], first]

theorem coherent_recalled : recalled.Coherent := by
  refine .of_pairwise ?_ (by decide +kernel)
  simp [recalled, Plan.occurrences, Plan.occurrencesList, Plan.mark]

/-- The limit is put into the sort, so the union is stored and read back, and the rows that its
inputs share are laid out twice. -/
theorem layOut_recalled : recalled.Built ∧ recalled.Coherent ∧ ∃ s s',
    layOut recalled [] false = .ok s ∧ layOut recalled [] true = .ok s' ∧
      s.sheetCount = 5 ∧ s'.sheetCount = 6 := by
  have hcount : (layOut recalled [] false).toOption.map Progress.sheetCount = some 5 := by
    decide +kernel
  have hcount' : (layOut recalled [] true).toOption.map Progress.sheetCount = some 6 := by
    decide +kernel
  obtain ⟨s, hs⟩ := Outcome.succeeds_of_isOk (x := layOut recalled [] false) (by decide +kernel)
  obtain ⟨s', hs'⟩ := Outcome.succeeds_of_isOk (x := layOut recalled [] true) (by decide +kernel)
  rw [hs] at hcount
  rw [hs'] at hcount'
  refine ⟨?_, coherent_recalled, s, s', hs, hs', Option.some.inj hcount, Option.some.inj hcount'⟩
  simp [Plan.built_node, recalled, Operator.isTyped, Operator.Accepts, Plan.Offers, Plan.schema?]

end Layout

end Gridplan
