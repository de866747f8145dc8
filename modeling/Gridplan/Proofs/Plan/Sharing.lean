import Gridplan.Proofs.Plan.Nodes

namespace Gridplan.Plan

variable {is : List Plan} {m : Option Nat} {op : Operator}

mutual

def occurrences : Plan → List Plan
  | .node m op is => .node m op is :: occurrencesList is

def occurrencesList : List Plan → List Plan
  | [] => []
  | p :: ps => occurrences p ++ occurrencesList ps

end

theorem occurrencesList_eq (is : List Plan) : occurrencesList is = is.flatMap occurrences := by
  induction is with
  | nil => rfl
  | cons p ps ih => rw [occurrencesList, ih, List.flatMap_cons]

theorem occurrences_node (m : Option Nat) (op : Operator) (is : List Plan) :
    occurrences (.node m op is) = .node m op is :: is.flatMap occurrences := by
  rw [occurrences, occurrencesList_eq]

theorem mem_occurrences_self (p : Plan) : p ∈ p.occurrences := by
  obtain ⟨m, op, is⟩ := p
  simp [occurrences_node]

theorem mem_occurrences_node {x : Plan} :
    x ∈ occurrences (.node m op is) ↔ x = .node m op is ∨ ∃ q ∈ is, x ∈ q.occurrences := by
  rw [occurrences_node, List.mem_cons, List.mem_flatMap]

theorem occurrences_trans {p q x : Plan} (hq : q ∈ p.occurrences) (hx : x ∈ q.occurrences) :
    x ∈ p.occurrences := by
  induction p with
  | node m op is ih =>
    rcases mem_occurrences_node.mp hq with rfl | ⟨i, hi, hq⟩
    · exact hx
    · exact mem_occurrences_node.mpr (.inr ⟨i, hi, ih i hi hq⟩)

theorem mem_occurrences_input {root : Plan} (hp : .node m op is ∈ root.occurrences) :
    ∀ i ∈ is, i ∈ root.occurrences := fun i hi ↦
  occurrences_trans hp (mem_occurrences_node.mpr (.inr ⟨i, hi, mem_occurrences_self i⟩))

theorem all_of_mem {P : Operator → List Plan → Prop} {p q : Plan} (h : p.All P)
    (hq : q ∈ p.occurrences) : q.All P := by
  induction p with
  | node m op is ih =>
    rcases mem_occurrences_node.mp hq with rfl | ⟨i, hi, hq⟩
    · exact h
    · exact ih i hi ((all_node.mp h).2 i hi) hq

theorem size_le_sizeList {i : Plan} (h : i ∈ is) : i.size ≤ sizeList is := by
  induction is with
  | nil => cases h
  | cons p ps ih =>
    rw [sizeList]
    rcases List.mem_cons.mp h with rfl | h
    · omega
    · have := ih h
      omega

theorem size_le_of_mem_occurrences {p x : Plan} (h : x ∈ p.occurrences) : x.size ≤ p.size := by
  induction p with
  | node m op is ih =>
    rcases mem_occurrences_node.mp h with rfl | ⟨i, hi, hx⟩
    · exact le_rfl
    · have hle := ih i hi hx
      have hsum := size_le_sizeList hi
      rw [size]
      omega

def marksOf (ns : List Plan) : List Nat := (ns.filterMap mark).reverse

def unmarkedOf (ns : List Plan) : List Plan := ns.filter fun x ↦ x.mark.isNone

@[simp] theorem marksOf_nil : marksOf [] = [] := rfl

theorem marksOf_append (ns ks : List Plan) : marksOf (ns ++ ks) = marksOf ks ++ marksOf ns := by
  simp [marksOf]

theorem mem_marksOf {ns : List Plan} {k : Nat} :
    k ∈ marksOf ns ↔ ∃ x ∈ ns, x.mark = some k := by
  simp [marksOf]

/-- The number of nodes that a plan reaches: those with different marks, and every place that has
none. -/
def objects (p : Plan) : Nat :=
  (marksOf p.occurrences).dedup.length + (unmarkedOf p.occurrences).length

/-- Whether a mark stands for one node, with all nodes below it marked as well. -/
structure Coherent (p : Plan) : Prop where
  same : ∀ x ∈ p.occurrences, ∀ y ∈ p.occurrences, ∀ k, x.mark = some k → y.mark = some k → x = y
  below : ∀ x ∈ p.occurrences, x.mark ≠ none → ∀ y ∈ x.occurrences, y.mark ≠ none

theorem below_of_marked {p : Plan} (hall : ∀ x ∈ p.occurrences, x.mark.isSome = true) :
    ∀ x ∈ p.occurrences, x.mark ≠ none → ∀ y ∈ x.occurrences, y.mark ≠ none :=
  fun _ hx _ y hy ↦ Option.isSome_iff_ne_none.mp (hall y (occurrences_trans hx hy))

theorem Coherent.of_pairwise {p : Plan}
    (h : p.occurrences.Pairwise fun x y ↦ x.mark = y.mark → x = y)
    (hall : ∀ x ∈ p.occurrences, x.mark.isSome = true) : p.Coherent where
  same := by
    intro x hx y hy k hxk hyk
    have hsymm : Std.Symm fun x y : Plan ↦ x.mark = y.mark → x = y :=
      ⟨fun x y hxy hmarks ↦ (hxy hmarks.symm).symm⟩
    by_contra hne
    exact hne (h.forall hx hy hne (hxk.trans hyk.symm))
  below := below_of_marked hall

theorem Coherent.of_nodup {p : Plan} (h : (marksOf p.occurrences).Nodup)
    (hall : ∀ x ∈ p.occurrences, x.mark.isSome = true) : p.Coherent := by
  refine .of_pairwise ?_ hall
  have hpair := List.pairwise_filterMap.mp (List.nodup_reverse.mp h)
  refine hpair.imp_of_mem fun {x y} hx _ hne hmarks ↦ ?_
  obtain ⟨k, hk⟩ := Option.isSome_iff_exists.mp (hall x hx)
  exact absurd rfl (hne k hk k (hmarks ▸ hk))

theorem Coherent.of_kept {p q : Plan} (h : p.Coherent)
    (hkept : ∀ x ∈ q.occurrences, x.mark ≠ none → x ∈ p.occurrences) : q.Coherent where
  same := fun x hx y hy k hxk hyk ↦
    h.same x (hkept x hx (by simp [hxk])) y (hkept y hy (by simp [hyk])) k hxk hyk
  below := fun x hx hm ↦ h.below x (hkept x hx hm) hm

mutual

/-- The nodes of a plan, inputs first, past marks met before. -/
def finished (seen : List Nat) : Plan → List Plan
  | .node m op is =>
    if m.any (seen.contains ·) then [] else finishedList seen is ++ [.node m op is]

def finishedList (seen : List Nat) : List Plan → List Plan
  | [] => []
  | p :: ps =>
    let ns := finished seen p
    ns ++ finishedList (marksOf ns ++ seen) ps

end

/-- A list with every node of a plan once, however often the plan reaches it. -/
structure Enumerates (p : Plan) (ns : List Plan) : Prop where
  reached : ∀ x ∈ ns, x ∈ p.occurrences
  shared : (marksOf ns).Perm (marksOf p.occurrences).dedup
  single : (unmarkedOf ns).Perm (unmarkedOf p.occurrences)

theorem length_eq_marks_add_unmarked (ns : List Plan) :
    ns.length = (marksOf ns).length + (unmarkedOf ns).length := by
  induction ns with
  | nil => rfl
  | cons x ns ih =>
    cases h : x.mark with
    | none => simp_all [marksOf, unmarkedOf]; omega
    | some k => simp_all [marksOf, unmarkedOf]; omega

theorem Enumerates.length {p : Plan} {ns : List Plan} (h : Enumerates p ns) :
    ns.length = p.objects := by
  rw [length_eq_marks_add_unmarked, objects, h.shared.length_eq, h.single.length_eq]

theorem unmarkedOf_append (ns ks : List Plan) :
    unmarkedOf (ns ++ ks) = unmarkedOf ns ++ unmarkedOf ks := List.filter_append ..

theorem finishedList_cons (seen : List Nat) (p : Plan) (ps : List Plan) :
    finishedList seen (p :: ps) =
      finished seen p ++ finishedList (marksOf (finished seen p) ++ seen) ps := rfl

/-- What is finished of some places when the marks in `seen` are finished already. -/
structure Finishes (seen : List Nat) (places ns : List Plan) : Prop where
  reached : ∀ x ∈ ns, x ∈ places
  nodup : (marksOf ns).Nodup
  unseen : ∀ k ∈ marksOf ns, k ∉ seen
  covers : ∀ k ∈ marksOf places, k ∈ marksOf ns ∨ k ∈ seen
  single : (unmarkedOf ns).Perm (unmarkedOf places)

/-- Whether with a mark all marks below its node are in the list. -/
def Closed (root : Plan) (seen : List Nat) : Prop :=
  ∀ x ∈ root.occurrences, ∀ k ∈ seen, x.mark = some k →
    ∀ y ∈ x.occurrences, ∀ l, y.mark = some l → l ∈ seen

variable {root p : Plan} {seen : List Nat} {ns places : List Plan}

theorem Finishes.closed (h : Finishes seen p.occurrences ns) (hroot : root.Coherent)
    (hp : p ∈ root.occurrences) (hseen : Closed root seen) : Closed root (marksOf ns ++ seen) := by
  intro x hx k hk hxk y hy l hl
  rw [List.mem_append] at hk ⊢
  rcases hk with hk | hk
  · -- the mark was met in `p`, so its node is a place of `p`
    obtain ⟨z, hz, hzk⟩ := mem_marksOf.mp hk
    have hzp := h.reached z hz
    obtain rfl := hroot.same x hx z (occurrences_trans hp hzp) k hxk hzk
    exact h.covers l (mem_marksOf.mpr ⟨y, occurrences_trans hzp hy, hl⟩)
  · exact .inr (hseen x hx k hk hxk y hy l hl)

theorem finishedList_finishes (hroot : root.Coherent) (his : ∀ i ∈ is, i ∈ root.occurrences)
    (ih : ∀ i ∈ is, ∀ seen, Closed root seen → Finishes seen i.occurrences (finished seen i))
    (hseen : Closed root seen) : Finishes seen (is.flatMap occurrences) (finishedList seen is) := by
  induction is generalizing seen with
  | nil =>
    exact ⟨by simp [finishedList], List.nodup_nil, by simp [finishedList], by simp, .nil⟩
  | cons i is ihs =>
    rw [finishedList_cons, List.flatMap_cons]
    have hi := ih i (by simp) seen hseen
    have hclosed := hi.closed hroot (his i (by simp)) hseen
    have hrest := ihs (fun j hj ↦ his j (by simp [hj])) (fun j hj ↦ ih j (by simp [hj])) hclosed
    refine ⟨?_, ?_, ?_, ?_, ?_⟩
    · intro x hx
      rcases List.mem_append.mp hx with hx | hx
      · exact List.mem_append_left _ (hi.reached x hx)
      · exact List.mem_append_right _ (hrest.reached x hx)
    · rw [marksOf_append]
      refine List.nodup_append'.mpr ⟨hrest.nodup, hi.nodup, fun k hk hk' ↦ ?_⟩
      exact hrest.unseen k hk (List.mem_append_left _ hk')
    · intro k hk
      rw [marksOf_append, List.mem_append] at hk
      rcases hk with hk | hk
      · exact fun hks ↦ hrest.unseen k hk (List.mem_append_right _ hks)
      · exact hi.unseen k hk
    · intro k hk
      rw [marksOf_append, List.mem_append] at hk ⊢
      rcases hk with hk | hk
      · have := hrest.covers k hk
        rw [List.mem_append] at this
        tauto
      · have := hi.covers k hk
        tauto
    · rw [unmarkedOf_append, unmarkedOf_append]
      exact hi.single.append hrest.single

theorem finished_finishes (hroot : root.Coherent) (hp : p ∈ root.occurrences)
    (hseen : Closed root seen) : Finishes seen p.occurrences (finished seen p) := by
  induction p generalizing seen with
  | node m op is ih =>
    have his := mem_occurrences_input hp
    rw [finished]
    split
    · next hm =>
      obtain ⟨k, rfl, hk⟩ := (Option.any_eq_true ..).mp hm
      have hk : k ∈ seen := by simpa using hk
      refine ⟨by simp, List.nodup_nil, by simp, fun l hl ↦ .inr ?_, ?_⟩
      · obtain ⟨y, hy, hyl⟩ := mem_marksOf.mp hl
        exact hseen _ hp k hk rfl y hy l hyl
      · have hnone : unmarkedOf (occurrences (.node (some k) op is)) = [] := by
          refine List.filter_eq_nil_iff.mpr fun y hy ↦ ?_
          have := hroot.below _ hp (by simp [mark]) y hy
          simpa using this
        rw [hnone]
        exact .nil
    · next hm =>
      have hrest := finishedList_finishes hroot his (fun i hi seen ↦ ih i hi (his i hi)) hseen
      have hself : ∀ k ∈ marksOf [.node m op is],
          k ∉ marksOf (finishedList seen is) ∧ k ∉ seen := by
        intro k hk
        obtain rfl : m = some k := by simpa [marksOf, mark] using hk
        refine ⟨fun hin ↦ ?_, by simpa using hm⟩
        -- a place below the node with its mark would be the node itself
        obtain ⟨z, hz, hzk⟩ := mem_marksOf.mp hin
        obtain ⟨i, hi, hzi⟩ := List.mem_flatMap.mp (hrest.reached z hz)
        obtain rfl := hroot.same _ hp z (occurrences_trans (his i hi) hzi) k rfl hzk
        have hle := size_le_of_mem_occurrences hzi
        have hsum := size_le_sizeList hi
        rw [size] at hle
        omega
      rw [occurrences_node, ← List.singleton_append]
      refine ⟨?_, ?_, ?_, ?_, ?_⟩
      · intro x hx
        rcases List.mem_append.mp hx with hx | hx
        · exact List.mem_append_right _ (hrest.reached x hx)
        · exact List.mem_append_left _ hx
      · rw [marksOf_append]
        refine List.nodup_append'.mpr ⟨?_, hrest.nodup, fun k hk ↦ (hself k hk).1⟩
        cases m with
        | none => exact List.nodup_nil
        | some k => exact List.nodup_singleton k
      · intro k hk
        rw [marksOf_append, List.mem_append] at hk
        rcases hk with hk | hk
        · exact (hself k hk).2
        · exact hrest.unseen k hk
      · intro k hk
        rw [marksOf_append, List.mem_append] at hk ⊢
        rcases hk with hk | hk
        · have := hrest.covers k hk
          tauto
        · exact .inl (.inl hk)
      · rw [unmarkedOf_append, unmarkedOf_append]
        exact List.perm_append_comm.trans (hrest.single.append_left _)

theorem Coherent.enumerates (h : p.Coherent) : Enumerates p (p.finished []) := by
  have hf := finished_finishes h (mem_occurrences_self p) (show Closed p [] by simp [Closed])
  refine ⟨hf.reached, ?_, hf.single⟩
  refine (List.perm_ext_iff_of_nodup hf.nodup (List.nodup_dedup _)).mpr fun k ↦ ?_
  rw [List.mem_dedup]
  constructor
  · intro hk
    obtain ⟨x, hx, hxk⟩ := mem_marksOf.mp hk
    exact mem_marksOf.mpr ⟨x, hf.reached x hx, hxk⟩
  · intro hk
    simpa using hf.covers k hk

theorem Coherent.mem_finished {x : Plan} (h : p.Coherent) (hx : x ∈ p.occurrences) :
    x ∈ p.finished [] := by
  have henum := h.enumerates
  cases hm : x.mark with
  | none =>
    have hmem : x ∈ unmarkedOf p.occurrences := List.mem_filter.mpr ⟨hx, by simp [hm]⟩
    exact (List.mem_filter.mp (henum.single.mem_iff.mpr hmem)).1
  | some k =>
    have hk : k ∈ marksOf (p.finished []) :=
      henum.shared.mem_iff.mpr (List.mem_dedup.mpr (mem_marksOf.mpr ⟨x, hx, hm⟩))
    obtain ⟨y, hy, hyk⟩ := mem_marksOf.mp hk
    rwa [h.same x hx y (henum.reached y hy) k hm hyk]

end Gridplan.Plan
