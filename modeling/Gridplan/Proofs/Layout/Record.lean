import Gridplan.Proofs.Layout.Drawable
import Gridplan.Proofs.Layout.Order

namespace Gridplan.Layout

open Formula
open Outcome (Ensures)
open Plan (marksOf finished finishedList)

variable {sources : Sources} {s : Progress} {nodes : List Plan} {parts : List Part}
  {ps : List Placement} {x y : Plan × Nat} {P : Placement} {e : Step} {root p : Plan}
  {optimized : Bool}

def Laid (sources : Sources) (x : Plan × Nat) (P : Placement) : Prop :=
  ∃ bs, List.Forall₂ (Matches sources) x.1.inputs bs ∧
    placeNode sources x.2 x.1.op x.1.inputs bs = .ok P

theorem Laid.belongs (h : Laid sources x P) (he : e ∈ P.edits) : Belongs x.1.kind x.2 e.sheet := by
  obtain ⟨bs, -, hP⟩ := h
  obtain ⟨parts, htidy, hparts⟩ := placeNode_own sources x.1.op x.1.inputs bs P hP
  obtain ⟨part, hpart, hname⟩ := List.mem_map.mp (htidy.sheet_mem he)
  exact hname ▸ hparts part hpart

structure Recorded (sources : Sources) (s : Progress) (nodes : List Plan) (ps : List Placement) :
    Prop where
  edits : s.edits = ps.flatMap (·.edits)
  counter : s.counter = nodes.length
  blocks : s.blocks = ps.map (·.block)
  laid : List.Forall₂ (Laid sources) nodes.zipIdx ps

theorem recorded_nil : Recorded sources {} [] [] where
  edits := rfl
  counter := rfl
  blocks := rfl
  laid := .nil

theorem Recorded.add (h : Recorded sources s nodes ps) (m : Option Nat) {op : Operator}
    {is : List Plan} {bs : List Block} (hbs : List.Forall₂ (Matches sources) is bs)
    (hP : placeNode sources s.counter op is bs = .ok P) :
    Recorded sources (s.add m P) (nodes ++ [.node m op is]) (ps ++ [P]) where
  edits := by simp [Progress.add, h.edits]
  counter := by simp [Progress.add, h.counter]
  blocks := by simp [Progress.add, h.blocks]
  laid := by
    rw [List.zipIdx_append]
    refine List.rel_append h.laid (.cons ⟨bs, hbs, ?_⟩ .nil)
    rw [h.counter] at hP
    simpa [Plan.op, Plan.inputs] using hP

theorem kept_recorded (hb : p.Built) (hc : p.Coherent) :
    Kept sources p (fun s nodes ↦ Charted sources p s nodes ∧ ∃ ps, Recorded sources s nodes ps)
      fun _ n b ↦ Matches sources n b ∧ n.Drawable sources where
  known := fun h ↦ h.1.shared
  old := fun _ _ h ↦ h
  step := by
    rintro s nodes m op is bs P hp ⟨h, ps, hrec⟩ hbs hP
    obtain ⟨h', hblock⟩ := (kept_charted hb hc).step hp h hbs hP
    exact ⟨⟨h', _, hrec.add m (hbs.imp fun _ _ h ↦ h.1) hP⟩, hblock⟩

theorem recorded_of_layOut (hp : p.Built) (hc : p.Coherent)
    (h : layOut p sources optimized = .ok s) :
    ∃ q ps, chosen p optimized = .ok q ∧ Recorded sources s (q.finished []) ps := by
  obtain ⟨q, hq, -, ps, hps⟩ := Kept.layOut h (fun _ ↦ ⟨charted_nil, [], recorded_nil⟩) fun q hq ↦
    kept_recorded (chosen_built hp hq) (chosen_coherent hp hc hq)
  exact ⟨q, ps, hq, hps⟩

theorem Recorded.laid_getElem (h : Recorded sources s nodes ps) {k : Nat} (hn : k < nodes.length)
    (hp : k < ps.length) : Laid sources (nodes[k], k) ps[k] := by
  simpa using (List.forall₂_iff_get.mp h.laid).2 k (by simpa using hn) hp

theorem Recorded.mem_edits_iff (h : Recorded sources s nodes ps) {k : Nat} (hn : k < nodes.length)
    (hp : k < ps.length) :
    (e ∈ s.edits ∧ Belongs nodes[k].kind k e.sheet) ↔ e ∈ ps[k].edits := by
  have hlen : ps.length = nodes.length := by simpa using h.laid.length_eq.symm
  have hP := h.laid_getElem hn hp
  refine ⟨?_, fun he ↦ ⟨?_, Laid.belongs (x := (nodes[k], k)) hP he⟩⟩
  · rintro ⟨he, hbelongs⟩
    rw [h.edits] at he
    obtain ⟨Q, hQ, he⟩ := List.mem_flatMap.mp he
    obtain ⟨j, hj, rfl⟩ := List.getElem_of_mem hQ
    -- the sheet of the edit tells the number of its node
    have hj' : j < nodes.length := by omega
    obtain rfl : j = k := (Laid.belongs (h.laid_getElem hj' hj) he).number_eq hbelongs
    exact he
  · rw [h.edits]
    exact List.mem_flatMap.mpr ⟨ps[k], List.getElem_mem hp, he⟩

theorem Recorded.exists_laid (h : Recorded sources s nodes ps) (hx : x ∈ nodes.zipIdx) :
    ∃ P, Laid sources x P ∧ ∀ e, e ∈ s.edits ∧ Belongs x.1.kind x.2 e.sheet ↔ e ∈ P.edits := by
  obtain ⟨n, k⟩ := x
  obtain ⟨hk, rfl⟩ := List.getElem?_eq_some_iff.mp (List.mk_mem_zipIdx_iff_getElem?.mp hx)
  have hlen : ps.length = nodes.length := by simpa using h.laid.length_eq.symm
  exact ⟨ps[k], h.laid_getElem hk (hlen ▸ hk), fun e ↦ h.mem_edits_iff hk (hlen ▸ hk)⟩

theorem Recorded.forall₂_blocks (h : Recorded sources s nodes ps) :
    List.Forall₂ (fun x b ↦ x.1 ∈ nodes ∧ ∃ P, P.block = b ∧ Laid sources x P ∧
      ∀ e, e ∈ s.edits ∧ Belongs x.1.kind x.2 e.sheet ↔ e ∈ P.edits) nodes.zipIdx s.blocks := by
  rw [h.blocks]
  refine List.forall₂_map_right_iff.mpr (List.forall₂_iff_get.mpr ⟨h.laid.length_eq, ?_⟩)
  intro k hn hp
  have hk : k < nodes.length := by simpa using hn
  refine ⟨by simp, ps[k], rfl, ?_, fun e ↦ ?_⟩
  · simpa using h.laid_getElem hk hp
  · simpa using h.mem_edits_iff (e := e) hk hp

theorem laid_of_layOut (hp : p.Built) (hc : p.Coherent) (h : layOut p sources optimized = .ok s) :
    ∃ q, chosen p optimized = .ok q ∧ List.Forall₂ (fun n b ↦ n ∈ q.finished [] ∧
      ∃ k P, P.block = b ∧ Laid sources (n, k) P ∧
        ∀ e : Step, e.sheet = b.sheet → (e ∈ s.edits ↔ e ∈ P.edits)) (q.finished []) s.blocks := by
  obtain ⟨q, ps, hq, hrec⟩ := recorded_of_layOut hp hc h
  obtain ⟨q', hq', parts, hrun⟩ := run_of_layOut hp h
  obtain rfl := Except.ok.inj (hq.symm.trans hq')
  refine ⟨q, hq, ?_⟩
  rw [← List.zipIdx_map_fst 0 (q.finished [])]
  refine List.forall₂_map_left_iff.mpr (.mp ?_ hrun.blocks hrec.forall₂_blocks)
  rintro ⟨n, k⟩ b hstands ⟨hn, P, rfl, hlaid, hedits⟩
  refine ⟨by simpa using hn, k, P, rfl, hlaid, fun e he ↦ ?_⟩
  rw [← hedits e, he]
  exact (and_iff_left hstands.belongs).symm

end Gridplan.Layout
