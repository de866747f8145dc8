import Gridplan.Proofs.Workbook.Order
import Mathlib.Data.Fintype.Order
import Mathlib.Logic.Relation

namespace Gridplan.Schedule

variable {φ : Type} {es : List (Edit φ)} {s t : String}

def Needs (es : List (Edit φ)) (s t : String) : Prop := ∃ e ∈ es, e.sheet = s ∧ e.needs? = some t

/-- Whether needs lead from the sheet to one without formulas or into a circle. -/
def Stuck (es : List (Edit φ)) (s : String) : Prop :=
  ∃ t, Relation.ReflTransGen (Needs es) s t ∧ (t ∉ sheetsOf es ∨ Relation.TransGen (Needs es) t t)

theorem Needs.mem_sheetsOf (h : Needs es s t) : s ∈ sheetsOf es := by
  obtain ⟨e, he, hs, -⟩ := h
  exact Schedule.mem_sheetsOf.mpr ⟨e, he, hs⟩

namespace Stuck

theorem of_needs (hst : Needs es s t) (h : Stuck es t) : Stuck es s := by
  obtain ⟨u, htu, hu⟩ := h
  exact ⟨u, .head hst htu, hu⟩

theorem of_not_mem (h : s ∉ sheetsOf es) : Stuck es s := ⟨s, .refl, .inl h⟩

theorem of_circle (h : Relation.TransGen (Needs es) s s) : Stuck es s := ⟨s, .refl, .inr h⟩

theorem exists_needs (h : Stuck es s) (hs : s ∈ sheetsOf es) : ∃ t, Needs es s t ∧ Stuck es t := by
  obtain ⟨u, hsu, hu⟩ := h
  rcases hsu.cases_head with rfl | ⟨t, hst, htu⟩
  · have hcircle := hu.resolve_left fun h ↦ h hs
    obtain ⟨t, hst, hts⟩ := Relation.TransGen.head'_iff.mp hcircle
    exact ⟨t, hst, s, hts, .inr hcircle⟩
  · exact ⟨t, hst, u, htu, hu⟩

end Stuck

/-- Names in order are not stuck, because the first stuck one would need an earlier one. -/
theorem Ordered.not_stuck {names : List String} (h : Ordered (needsOf es) names)
    (hnames : ∀ s ∈ names, s ∈ sheetsOf es) : ∀ s ∈ names, ¬Stuck es s := by
  induction h with
  | nil => simp
  | concat _ hs ih =>
    have ih := ih fun t ht ↦ hnames t (List.mem_append_left _ ht)
    intro s hmem hstuck
    rcases List.mem_append.mp hmem with hold | hnew
    · exact ih s hold hstuck
    · obtain ⟨t, hst, ht⟩ := hstuck.exists_needs (hnames s hmem)
      obtain rfl := List.mem_singleton.mp hnew
      exact ih t (hs t (mem_needsOf.mpr hst)) ht

abbrev Free (es : List (Edit φ)) : Type := { s // s ∈ sheetsOf es ∧ ¬Stuck es s }

theorem wellFounded_needs (es : List (Edit φ)) :
    WellFounded fun s t : Free es ↦ Relation.TransGen (Needs es) t.1 s.1 := by
  have hfinite : { s | s ∈ sheetsOf es ∧ ¬Stuck es s }.Finite :=
    (sheetsOf es).finite_toSet.subset fun _ hs ↦ hs.1
  have : Finite (Free es) := hfinite.to_subtype
  have : IsTrans (Free es) fun s t ↦ Relation.TransGen (Needs es) t.1 s.1 :=
    ⟨fun _ _ _ hst htu ↦ htu.trans hst⟩
  have : Std.Irrefl fun s t : Free es ↦ Relation.TransGen (Needs es) t.1 s.1 :=
    ⟨fun s hs ↦ s.2.2 (.of_circle hs)⟩
  exact Finite.wellFounded_of_trans_of_irrefl _

theorem Free.mem_sheetOrder (s : Free es) : s.1 ∈ sheetOrder es := by
  obtain ⟨rest, -, hperm, hmissing⟩ := sheetOrder_spec es
  induction s using (wellFounded_needs es).induction with
  | _ s ih =>
    rcases List.mem_append.mp (hperm.symm.subset s.2.1) with htaken | hleft
    · exact htaken
    · -- the need that keeps it back is neither stuck nor taken
      obtain ⟨t, ht, hout⟩ := hmissing s.1 hleft
      have hst : Needs es s.1 t := mem_needsOf.mp ht
      have hfree : ¬Stuck es t := fun h ↦ s.2.2 (h.of_needs hst)
      have hsheet : t ∈ sheetsOf es := by_contra fun h ↦ hfree (.of_not_mem h)
      exact absurd (ih ⟨t, hsheet, hfree⟩ (.single hst)) hout

theorem mem_sheetOrder_iff : s ∈ sheetOrder es ↔ s ∈ sheetsOf es ∧ ¬Stuck es s := by
  constructor
  · intro hs
    exact ⟨mem_sheetsOf_of_mem_sheetOrder hs, (ordered_sheetOrder es).not_stuck
      (fun _ ↦ mem_sheetsOf_of_mem_sheetOrder) s hs⟩
  · exact fun hs ↦ Free.mem_sheetOrder ⟨s, hs⟩

theorem filter_sortFormulas_of_stuck (s : String) :
    (¬Stuck es s → (sortFormulas es).filter (·.sheet == s) = es.filter (·.sheet == s)) ∧
      (Stuck es s → (sortFormulas es).filter (·.sheet == s) = []) := by
  constructor
  · intro hfree
    have hs : s ∈ sheetsOf es := by_contra fun h ↦ hfree (.of_not_mem h)
    exact filter_gathered es (nodup_sheetOrder es) (mem_sheetOrder_iff.mpr ⟨hs, hfree⟩)
  · refine fun hstuck ↦ List.filter_eq_nil_iff.mpr fun e he hes ↦ ?_
    have hsheet := (mem_sortFormulas.mp he).2
    rw [beq_iff_eq.mp hes] at hsheet
    exact (mem_sheetOrder_iff.mp hsheet).2 hstuck

theorem sortFormulas_perm_iff : (sortFormulas es).Perm es ↔ ∀ s ∈ sheetsOf es, ¬Stuck es s := by
  constructor
  · intro hperm s hs
    obtain ⟨e, he, rfl⟩ := mem_sheetsOf.mp hs
    exact (mem_sheetOrder_iff.mp (mem_sortFormulas.mp (hperm.symm.subset he)).2).2
  · intro hfree
    refine gathered_perm _ (nodup_sheetOrder es) fun e he ↦ mem_sheetOrder_iff.mpr ?_
    have hs : e.sheet ∈ sheetsOf es := mem_sheetsOf.mpr ⟨e, he, rfl⟩
    exact ⟨hs, hfree _ hs⟩

theorem forall_not_stuck_iff : (∀ s ∈ sheetsOf es, ¬Stuck es s) ↔
    (∀ e ∈ es, ∀ t, e.needs? = some t → t ∈ sheetsOf es) ∧
      ∀ t, ¬Relation.TransGen (Needs es) t t := by
  constructor
  · refine fun hfree ↦ ⟨fun e he t ht ↦ ?_, fun t hcircle ↦ ?_⟩
    · by_contra hout
      have hst : Needs es e.sheet t := ⟨e, he, rfl, ht⟩
      exact hfree _ hst.mem_sheetsOf (.of_needs hst (.of_not_mem hout))
    · obtain ⟨u, htu, -⟩ := Relation.TransGen.head'_iff.mp hcircle
      exact hfree t htu.mem_sheetsOf (.of_circle hcircle)
  · rintro ⟨hneeds, hcircle⟩ s hs ⟨t, hst, ht⟩
    refine ht.elim (fun hout ↦ hout ?_) (hcircle t)
    rcases hst.cases_tail with rfl | ⟨u, -, e, he, -, hneed⟩
    · exact hs
    · exact hneeds e he t hneed

/-- A schedule writes each formula of a sheet that is not stuck as often as it is given, and no
formula of a stuck sheet. So it writes all formulas just when every sheet that a formula needs has
formulas of its own and needs do not run in circles. -/
theorem formulas_written_iff {main : Option String} {order : Schedule φ}
    (h : ofEdits es main = .ok order) :
    (∀ s, (¬Stuck (ofStage .formulas es) s → (order.editsAt .formulas).filter (·.sheet == s) =
        (ofStage .formulas es).filter (·.sheet == s)) ∧
      (Stuck (ofStage .formulas es) s → (order.editsAt .formulas).filter (·.sheet == s) = [])) ∧
    ((order.editsAt .formulas).Perm (ofStage .formulas es) ↔
      (∀ e ∈ ofStage .formulas es, ∀ t, e.needs? = some t → t ∈ sheetsOf (ofStage .formulas es)) ∧
      ∀ t, ¬Relation.TransGen (Needs (ofStage .formulas es)) t t) := by
  have hedits := editsAt_ofEdits h .formulas
  rw [if_pos rfl] at hedits
  rw [hedits]
  exact ⟨fun s ↦ filter_sortFormulas_of_stuck s, sortFormulas_perm_iff.trans forall_not_stuck_iff⟩

def threaded : List (Edit String) :=
  .create "A" (.int 2) 2 :: .create "B" (.int 2) 2 :: .create "C" (.int 2) 2 :: chained

theorem formulas_written_iff_threaded : ∃ order, ofEdits threaded none = .ok order ∧
    (order.editsAt .formulas).Perm (ofStage .formulas threaded) := by
  have hok : (ofEdits threaded none).isOk = true := by decide +kernel
  obtain ⟨order, horder⟩ := Outcome.succeeds_of_isOk hok
  have hformulas : ofStage .formulas threaded = chained := rfl
  have hneeds : ∀ s t, Needs chained s t → s < t := by
    rintro s t ⟨e, he, rfl, ht⟩
    simp only [chained, List.mem_cons, List.not_mem_nil, or_false] at he
    rcases he with rfl | rfl | rfl | rfl <;> simp [Edit.needs?] at ht <;> subst ht <;> decide
  refine ⟨order, horder, (formulas_written_iff horder).2.mpr ?_⟩
  rw [hformulas]
  refine ⟨fun e he t ht ↦ ?_, fun t hcircle ↦ ?_⟩
  · simp only [chained, List.mem_cons, List.not_mem_nil, or_false] at he
    rcases he with rfl | rfl | rfl | rfl <;> simp [Edit.needs?] at ht <;> subst ht <;>
      decide +kernel
  · have hlt := Relation.TransGen.mono hneeds t t hcircle
    rw [Relation.transGen_eq_self] at hlt
    exact lt_irrefl t hlt

def sourced : List (Edit String) :=
  [.create "source" (.int 100) 3, .create "filtered" (.int 100) 3,
    .values "source" 0 0 (.list [.list [.text "A", .text "B", .text "C"]]),
    .formula "filtered" 0 0 "=FILTER(source!A:C, source!A:A > 0)" (some "source")]

/-- A formula over values is accepted and then left out. -/
theorem formulas_written_sourced : ∃ order, ofEdits sourced none = .ok order ∧
    order.editsAt .formulas = [] ∧
    ¬(order.editsAt .formulas).Perm (ofStage .formulas sourced) := by
  obtain ⟨order, horder, hlen⟩ := Outcome.exists_of_any (x := ofEdits sourced none)
    (P := fun order ↦ (order.editsAt .formulas).length = 0) (by decide +kernel)
  refine ⟨order, horder, List.length_eq_zero_iff.mp hlen, fun hperm ↦ ?_⟩
  have hone := hperm.length_eq
  rw [hlen] at hone
  cases hone

end Gridplan.Schedule
