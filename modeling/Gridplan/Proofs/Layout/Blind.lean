import Gridplan.Proofs.Layout.Run
import Gridplan.Proofs.Optimize.Sources

namespace Gridplan

/-- Whether two edits are the same up to the rows of a source. -/
inductive Edit.Alike {φ : Type} : Edit φ → Edit φ → Prop
  | refl (e : Edit φ) : Alike e e
  | rows (number : Nat) (xs ys : Datum) :
    Alike (.values (Layout.sheetName .source number) 1 0 xs)
      (.values (Layout.sheetName .source number) 1 0 ys)

namespace Layout

open Formula
open Outcome (Agree)
open List (Forall₂)

def rowsOf (sources : Sources) (id : String) : Datum := (sources.lookup id).getD (.list [])

variable {S T : Sources} {counter : Nat} {op : Operator} {is : List Plan} {p q : Plan}
  {optimized : Bool}

/-- Whether two layouts are the same up to the rows of sources. -/
structure Progress.Alike (s t : Progress) : Prop where
  edits : Forall₂ Edit.Alike s.edits t.edits
  counter : s.counter = t.counter
  shared : s.shared = t.shared
  blocks : s.blocks = t.blocks

def Placement.Alike (P Q : Placement) : Prop :=
  Forall₂ Edit.Alike P.edits Q.edits ∧ P.block = Q.block

/-- Whether a node counts the same in two pieces of data. -/
structure Counts (S T : Sources) (op : Operator) (is : List Plan) : Prop where
  rows : ∀ id, op.sourceId? = some id → rowCount (rowsOf S id) = rowCount (rowsOf T id)
  values : ∀ index columns values aggfunc, op = .pivot index columns values aggfunc →
    knownValues S is.head? columns = knownValues T is.head? columns ∧
      knownValues S is.head? (index.headD "") = knownValues T is.head? (index.headD "")

theorem forall₂_alike_refl {φ : Type} (es : List (Edit φ)) : Forall₂ Edit.Alike es es :=
  List.forall₂_same.mpr fun e _ ↦ .refl e

theorem place_agree (sheet : String) (schema : List String) (last : Extent) {es fs : List Step}
    (h : Forall₂ Edit.Alike es fs) :
    Agree Placement.Alike (place sheet schema last es) (place sheet schema last fs) := by
  unfold place
  cases last <;>
    exact (Agree.refl (R := Eq) (fun _ ↦ rfl) _).bind fun r _ hr ↦ hr ▸ .ok ⟨h, rfl⟩

theorem source_agree (schema : Option (List String)) {xs ys : Datum}
    (h : rowCount xs = rowCount ys) :
    Agree Placement.Alike (source counter schema xs) (source counter schema ys) := by
  unfold source
  rw [h]
  split
  · exact .error _
  · exact .error _
  · refine place_agree _ _ _ (List.rel_append (forall₂_alike_refl _) ?_)
    exact .cons (.rows counter xs ys) .nil

theorem placeNode_agree (h : Counts S T op is) (blocks : List Block) :
    Agree Placement.Alike (placeNode S counter op is blocks)
      (placeNode T counter op is blocks) := by
  have hrefl : ∀ x : Outcome Placement, Agree Placement.Alike x x :=
    Agree.refl fun P ↦ ⟨forall₂_alike_refl P.edits, rfl⟩
  cases op with
  | source id schema data => exact source_agree schema (h.rows id rfl)
  | pivot index columns values aggfunc =>
    obtain ⟨hcols, hrows⟩ := h.values index columns values aggfunc rfl
    rw [placeNode, placeNode, hcols, hrows]
    exact hrefl _
  | _ => exact hrefl _

/-- Whether a plan is laid out alike wherever the same has been laid out before. -/
def Agrees (S T : Sources) (p : Plan) : Prop :=
  ∀ s t, s.Alike t →
    Agree (fun x y ↦ x.1 = y.1 ∧ x.2.Alike y.2) (placePlan S p s) (placePlan T p t)

theorem placeInputs_agree (his : ∀ i ∈ is, Agrees S T i) {s t : Progress} (h : s.Alike t) :
    Agree (fun x y ↦ x.1 = y.1 ∧ x.2.Alike y.2) (placeInputs S is s) (placeInputs T is t) := by
  induction is generalizing s t with
  | nil => exact .ok ⟨rfl, h⟩
  | cons i is ih =>
    obtain ⟨hi, his⟩ := List.forall_mem_cons.mp his
    rw [placeInputs, placeInputs]
    refine (hi s t h).bind fun x y hxy ↦ ?_
    refine (ih his hxy.2).bind fun xs ys hxys ↦ ?_
    exact .ok ⟨congrArg₂ List.cons hxy.1 hxys.1, hxys.2⟩

theorem Progress.Alike.add {s t : Progress} {P Q : Placement} (h : s.Alike t) (m : Option Nat)
    (hPQ : P.Alike Q) : (s.add m P).Alike (t.add m Q) where
  edits := List.rel_append h.edits hPQ.1
  counter := by simp [Progress.add, h.counter]
  shared := by simp [Progress.add, h.shared, hPQ.2]
  blocks := by simp [Progress.add, h.blocks, hPQ.2]

theorem placePlan_agree (h : ∀ x ∈ p.occurrences, Counts S T x.op x.inputs) : Agrees S T p := by
  induction p with
  | node m op is ih =>
    have his : ∀ i ∈ is, Agrees S T i := fun i hi ↦
      ih i hi fun x hx ↦ h x (Plan.mem_occurrences_node.mpr (.inr ⟨i, hi, hx⟩))
    intro s t hst
    have hfind : s.find m = t.find m := by simp only [Progress.find, hst.shared]
    rw [placePlan, placePlan, hfind]
    cases t.find m with
    | some b => exact .ok ⟨rfl, hst⟩
    | none =>
      refine (placeInputs_agree his hst).bind fun x y hxy ↦ ?_
      obtain ⟨bs, s'⟩ := x
      obtain ⟨cs, t'⟩ := y
      obtain ⟨hbcs, h'⟩ := hxy
      obtain rfl : bs = cs := hbcs
      dsimp only
      rw [h'.counter]
      refine (placeNode_agree (h _ (Plan.mem_occurrences_self _)) bs).bind fun P Q hPQ ↦ ?_
      exact .ok ⟨hPQ.2, h'.add m hPQ⟩

theorem hasSource_of_chosen (h : chosen p optimized = .ok q) {id : String} (hid : q.HasSource id) :
    p.HasSource id := by
  cases optimized with
  | false =>
    obtain rfl := Except.ok.inj h
    exact hid
  | true => exact Optimize.hasSource_of_optimize h hid

theorem alike_written {s t : Progress} (h : s.Alike t) :
    Forall₂ Edit.Alike s.written t.written := by
  refine List.forall₂_map_left_iff.mpr (List.forall₂_map_right_iff.mpr (h.edits.imp ?_))
  rintro _ _ (e | ⟨n, xs, ys⟩)
  · exact .refl _
  · exact .rows n xs ys

/-- Data with the same numbers of rows and of pivot values is laid out with the same faults, or with
the same blocks and the same edits up to the rows of sources. -/
theorem layOut_agree
    (hrows : ∀ id, p.HasSource id → rowCount (rowsOf S id) = rowCount (rowsOf T id))
    (hpivots : ∀ q, chosen p optimized = .ok q → ∀ x ∈ q.occurrences,
      ∀ index columns values aggfunc, x.op = .pivot index columns values aggfunc →
        knownValues S x.inputs.head? columns = knownValues T x.inputs.head? columns ∧
          knownValues S x.inputs.head? (index.headD "") =
            knownValues T x.inputs.head? (index.headD "")) :
    Agree (fun s t ↦ Forall₂ Edit.Alike s.written t.written ∧ s.blocks = t.blocks ∧
        s.shared = t.shared ∧ s.counter = t.counter)
      (layOut p S optimized) (layOut p T optimized) := by
  rw [layOut_eq, layOut_eq]
  cases hq : chosen p optimized with
  | error f => exact .error f
  | ok q =>
    have hcounts : ∀ x ∈ q.occurrences, Counts S T x.op x.inputs := fun x hx ↦
      ⟨fun id hid ↦ hrows id (hasSource_of_chosen hq ⟨x, hx, hid⟩), hpivots q hq x hx⟩
    have hstart : Progress.Alike {} {} := ⟨.nil, rfl, rfl, rfl⟩
    refine (placePlan_agree hcounts {} {} hstart).bind fun x y hxy ↦ .ok ?_
    exact ⟨alike_written hxy.2, hxy.2.blocks, hxy.2.shared, hxy.2.counter⟩

def pivoted : Plan :=
  .node none (.pivot ["a"] "b" "c" none) [.node none (.source "t" (some ["a", "b", "c"]) none) []]

def twoRows (a a' b b' : String) (c : Int) : Sources :=
  [("t", .list [.list [.text a, .text b, .int c], .list [.text a', .text b', .int c]])]

theorem layOut_agree_pivoted :
    (layOut pivoted (twoRows "x" "y" "u" "v" 1) false).isOk = true ∧
      Agree (fun s t ↦ Forall₂ Edit.Alike s.written t.written ∧ s.blocks = t.blocks ∧
        s.shared = t.shared ∧ s.counter = t.counter)
        (layOut pivoted (twoRows "x" "y" "u" "v" 1) false)
        (layOut pivoted (twoRows "k" "l" "m" "n" 7) false) := by
  refine ⟨by decide +kernel, layOut_agree (fun id hid ↦ ?_) fun q hq x hx ↦ ?_⟩
  · rw [rowsOf, rowsOf, twoRows, twoRows, List.lookup_cons, List.lookup_cons]
    cases id == "t" <;> rfl
  · obtain rfl : pivoted = q := Except.ok.inj hq
    simp only [pivoted, Plan.occurrences, Plan.occurrencesList, List.append_nil, List.mem_cons,
      List.not_mem_nil, or_false] at hx
    rintro index columns values aggfunc hop
    rcases hx with rfl | rfl
    · obtain ⟨rfl, rfl, rfl, rfl⟩ := Operator.pivot.inj hop
      exact ⟨by rfl, by rfl⟩
    · cases hop

end Layout

end Gridplan
