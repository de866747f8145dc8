import Gridplan.Proofs.Layout.Cells
import Gridplan.Proofs.Layout.Run

namespace Gridplan.Layout

open Formula
open Outcome (Ensures)

variable {sources : Sources} {s : Progress} {parts news : List Part} {es : List Step} {p : Plan}
  {optimized : Bool}

structure Numbered (s : Progress) (parts : List Part) : Prop extends Tidy s.edits parts where
  numbered : ∀ p ∈ parts, ∃ kind, ∃ n < s.counter, Belongs kind n p.name

theorem numbered_nil : Numbered {} [] where
  edits := rfl
  nodup := List.nodup_nil
  tidy := by simp
  numbered := by simp

theorem Numbered.add (h : Numbered s parts) {kind : Kind} {P : Placement} (m : Option Nat)
    (hP : Own kind s.counter P) : ∃ parts, Numbered (s.add m P) parts := by
  obtain ⟨news, hnews, hbelongs⟩ := hP
  refine ⟨parts ++ news, ⟨?_, ?_, ?_⟩, ?_⟩
  · simp [Progress.add, h.edits, hnews.edits]
  · rw [List.map_append]
    refine List.nodup_append'.mpr ⟨h.nodup, hnews.nodup, fun name hold hnew ↦ ?_⟩
    -- the old sheets are for nodes with smaller numbers
    obtain ⟨p, hp, rfl⟩ := List.mem_map.mp hold
    obtain ⟨q, hq, hqp⟩ := List.mem_map.mp hnew
    obtain ⟨_, n, hn, hold⟩ := h.numbered p hp
    have := hold.number_eq (hqp ▸ hbelongs q hq)
    omega
  · exact List.forall_mem_append.mpr ⟨h.tidy, hnews.tidy⟩
  · refine List.forall_mem_append.mpr ⟨fun p hp ↦ ?_, fun p hp ↦ ?_⟩
    · obtain ⟨k, n, hn, hold⟩ := h.numbered p hp
      exact ⟨k, n, Nat.lt_succ_of_lt hn, hold⟩
    · exact ⟨kind, s.counter, Nat.lt_succ_self _, hbelongs p hp⟩

theorem kept_numbered (sources : Sources) (root : Plan) :
    Kept sources root (fun s _ ↦ ∃ parts, Numbered s parts) fun _ _ _ ↦ True where
  known := fun _ _ _ _ _ _ ↦ trivial
  old := fun _ _ _ ↦ trivial
  step := by
    rintro s nodes m op is bs P - ⟨parts, h⟩ - hP
    exact ⟨h.add m (placeNode_own sources op is bs P hP), trivial⟩

theorem tidy_of_layOut (h : layOut p sources optimized = .ok s) : ∃ parts, Tidy s.edits parts := by
  obtain ⟨-, -, parts, hparts⟩ := Kept.layOut h (fun _ ↦ ⟨[], numbered_nil⟩) fun q _ ↦
    kept_numbered sources q
  exact ⟨parts, hparts.toTidy⟩

namespace Tidy

theorem mem_cases (h : Tidy es parts) {e : Step} (he : e ∈ es) : ∃ p ∈ parts,
    e = .create p.name p.rows p.cols ∨ e ∈ p.body := by
  rw [h.edits] at he
  obtain ⟨p, hp, he⟩ := List.mem_flatMap.mp he
  exact ⟨p, hp, List.mem_cons.mp he⟩

theorem sheet_mem (h : Tidy es parts) {e : Step} (he : e ∈ es) : e.sheet ∈ parts.map Part.name := by
  obtain ⟨p, hp, rfl | he⟩ := h.mem_cases he
  · exact List.mem_map_of_mem hp
  · exact ((h.tidy p hp).fills e he).1 ▸ List.mem_map_of_mem hp

theorem needs (h : Tidy es parts) {e : Step} (he : e ∈ es) : e.needs? = none := by
  obtain ⟨p, hp, rfl | he⟩ := h.mem_cases he
  · rfl
  · exact ((h.tidy p hp).fills e he).2.2

theorem created (h : Tidy es parts) : es.filterMap Edit.created = parts.map Part.name := by
  rw [h.edits]
  have htidy := h.tidy
  clear h
  induction parts with
  | nil => rfl
  | cons p ps ih =>
    obtain ⟨hp, hps⟩ := List.forall_mem_cons.mp htidy
    have hbody : p.body.filterMap Edit.created = [] :=
      List.filterMap_eq_nil_iff.mpr fun e he ↦ (hp.fills e he).2.1
    rw [List.flatMap_cons, List.filterMap_append, ih hps, Part.edits, List.filterMap_cons, hbody]
    rfl

theorem apart (h : Tidy es parts) : es.Pairwise Edit.Apart := by
  rw [h.edits]
  refine List.pairwise_flatMap.mpr ⟨fun p hp ↦ ?_, ?_⟩
  · exact .cons (fun e _ _ ↦ List.disjoint_nil_left _) (h.tidy p hp).apart
  · -- edits of different parts are on different sheets
    have hsheet : ∀ p ∈ parts, ∀ e ∈ p.edits, e.sheet = p.name := by
      intro p hp e he
      rcases List.mem_cons.mp he with rfl | he
      · rfl
      · exact ((h.tidy p hp).fills e he).1
    refine (List.pairwise_map.mp h.nodup).imp_of_mem fun {p q} hp hq hne d hd e he hde ↦ ?_
    exact absurd ((hsheet p hp d hd).symm.trans (hde.trans (hsheet q hq e he))) hne

theorem opens (h : Tidy es parts) : Workbook.Opens es := by
  rw [h.edits]
  have htidy := h.tidy
  clear h
  induction parts with
  | nil =>
    intro before e after heq
    simp at heq
  | cons p ps ih =>
    obtain ⟨hp, hps⟩ := List.forall_mem_cons.mp htidy
    refine Workbook.Opens.append ?_ (ih hps)
    refine Workbook.opens_append [.create p.name p.rows p.cols] ?_ fun e he ↦ ?_
    · simp [Edit.created]
    · simp [Edit.created, (hp.fills e he).1]

end Tidy

section Written

theorem written_apart (h : es.Pairwise Edit.Apart) :
    (es.map (Edit.map Term.formula)).Pairwise Edit.Apart :=
  List.pairwise_map.mpr (h.imp fun hde ↦ by simpa [Edit.Apart] using hde)

theorem written_created (es : List Step) :
    (es.map (Edit.map Term.formula)).filterMap Edit.created = es.filterMap Edit.created := by
  simp [List.filterMap_map]

theorem written_opens (h : Workbook.Opens es) :
    Workbook.Opens (es.map (Edit.map Term.formula)) := by
  intro before e after heq he
  obtain ⟨b, rest, rfl, rfl, hrest⟩ := List.map_eq_append_iff.mp heq
  obtain ⟨d, a, rfl, rfl, rfl⟩ := List.map_eq_cons_iff.mp hrest
  rw [Edit.sheet_map, written_created]
  exact h b d a rfl (by simpa using he)

end Written

theorem Tidy.written (h : Tidy s.edits parts) :
    (s.written.filterMap Edit.created).Nodup ∧
      (∀ e ∈ s.written, e.sheet ∈ s.written.filterMap Edit.created) ∧
      ∀ e ∈ s.written, e.needs? = none := by
  rw [Progress.written, written_created, h.created]
  refine ⟨h.nodup, List.forall_mem_map.mpr fun e he ↦ ?_, List.forall_mem_map.mpr fun e he ↦ ?_⟩
  · rw [Edit.sheet_map]
    exact h.sheet_mem he
  · rw [Edit.needs?_map]
    exact h.needs he

/-- Every layout can be scheduled. Its sheets have different names; the schedule makes each edit
once, with the creations, the values and the formulas of each sheet in their order. -/
theorem layOut_scheduled (h : layOut p sources optimized = .ok s) (main : Option String) :
    (s.written.filterMap Edit.created).Nodup ∧
      ∃ plan, Schedule.ofEdits s.written main = .ok plan ∧ plan.edits.Perm s.written ∧
        Schedule.ofStage .create plan.edits = Schedule.ofStage .create s.written ∧
        Schedule.ofStage .values plan.edits = Schedule.ofStage .values s.written ∧
        ∀ sheet, (Schedule.ofStage .formulas plan.edits).filter (·.sheet == sheet) =
          (Schedule.ofStage .formulas s.written).filter (·.sheet == sheet) := by
  obtain ⟨parts, htidy⟩ := tidy_of_layOut h
  obtain ⟨hnodup, hsheets, hneeds⟩ := htidy.written
  obtain ⟨plan, hplan⟩ := Schedule.exists_ofEdits hnodup hsheets hneeds main
  refine ⟨hnodup, plan, hplan, Schedule.edits_perm hplan hneeds, ?_, ?_, fun sheet ↦ ?_⟩
  · exact Schedule.ofStage_edits hplan .create
  · exact Schedule.ofStage_edits hplan .values
  · rw [Schedule.ofStage_edits hplan .formulas, if_pos rfl]
    exact Schedule.filter_sortFormulas (fun e he ↦ hneeds e (Schedule.mem_ofStage.mp he).1) sheet

theorem layOut_scheduled_mirrored : ∃ s plan, layOut mirrored [] true = .ok s ∧
    (s.written.filterMap Edit.created).Nodup ∧
    Schedule.ofEdits s.written none = .ok plan ∧ plan.edits.Perm s.written := by
  obtain ⟨s, hs⟩ := layOut_mirrored true
  obtain ⟨hnodup, plan, hplan, hperm, _⟩ := layOut_scheduled hs none
  exact ⟨s, plan, hs, hnodup, hplan, hperm⟩

/-- No two edits of a layout write to the same cell. So the workbook is the same in the order in
which a plan is laid out, in the order of the schedule, and in any order that creates sheets before
they are filled. -/
theorem layOut_confluent (h : layOut p sources optimized = .ok s) :
    s.written.Pairwise Edit.Apart ∧ ∃ w, Workbook.ofEdits s.written = some w ∧
      (∀ main, ∃ plan, Schedule.ofEdits s.written main = .ok plan ∧
        Workbook.ofEdits plan.edits = some w) ∧
      ∀ es, es.Perm s.written → Workbook.Opens es → Workbook.ofEdits es = some w := by
  obtain ⟨parts, htidy⟩ := tidy_of_layOut h
  obtain ⟨hnodup, hsheets, hneeds⟩ := htidy.written
  have hapart := written_apart htidy.apart
  have hopens := written_opens htidy.opens
  obtain ⟨w, hw, _⟩ := Workbook.holds_ofEdits hopens hnodup hapart
  have hany : ∀ es, es.Perm s.written → Workbook.Opens es → Workbook.ofEdits es = some w := by
    intro es hes hopen
    rw [← Workbook.ofEdits_perm hes.symm hopens hopen hnodup hapart]
    exact hw
  refine ⟨hapart, w, hw, fun main ↦ ?_, hany⟩
  obtain ⟨plan, hplan⟩ := Schedule.exists_ofEdits hnodup hsheets hneeds main
  exact ⟨plan, hplan, hany _ (Schedule.edits_perm hplan hneeds)
    (Workbook.opens_schedule hplan hsheets)⟩

theorem layOut_confluent_mirrored : ∃ s w plan, layOut mirrored [] true = .ok s ∧
    s.written.Pairwise Edit.Apart ∧ Workbook.ofEdits s.written = some w ∧
    Schedule.ofEdits s.written none = .ok plan ∧ Workbook.ofEdits plan.edits = some w := by
  obtain ⟨s, hs⟩ := layOut_mirrored true
  obtain ⟨hapart, w, hw, hplan, _⟩ := layOut_confluent hs
  obtain ⟨plan, hplan, hpw⟩ := hplan none
  exact ⟨s, w, plan, hs, hapart, hw, hplan, hpw⟩

end Gridplan.Layout
