import Gridplan.Proofs.Layout.Order

namespace Gridplan

namespace Schedule

section Map

variable {φ ψ : Type} (f : φ → ψ) (es : List (Edit φ))

theorem ofStage_map (t : Stage) :
    ofStage t (es.map (Edit.map f)) = (ofStage t es).map (Edit.map f) := by
  simp [ofStage, List.filter_map, Function.comp_def]

theorem filter_sheet_map (s : String) :
    (es.map (Edit.map f)).filter (·.sheet == s) = (es.filter (·.sheet == s)).map (Edit.map f) := by
  simp [List.filter_map, Function.comp_def]

theorem sortFormulas_map :
    sortFormulas (es.map (Edit.map f)) = (sortFormulas es).map (Edit.map f) := by
  have hsheets : sheetsOf (es.map (Edit.map f)) = sheetsOf es := by
    simp [sheetsOf, Function.comp_def]
  have hneeds : needsOf (es.map (Edit.map f)) = needsOf es := by
    funext s
    simp [needsOf, filter_sheet_map, List.filterMap_map]
  have horder : sheetOrder (es.map (Edit.map f)) = sheetOrder es := by
    rw [sheetOrder, sheetOrder, hsheets, hneeds]
  simp only [sortFormulas, horder, List.map_flatMap, filter_sheet_map]

variable {es} {main : Option String}

theorem edits_map {s : Schedule φ} {t : Schedule ψ} (hs : ofEdits es main = .ok s)
    (ht : ofEdits (es.map (Edit.map f)) main = .ok t) : t.edits = s.edits.map (Edit.map f) := by
  rw [edits_ofEdits hs, edits_ofEdits ht]
  simp only [ofStage_map, sortFormulas_map, List.map_append]

end Map

variable {φ : Type} {es : List (Edit φ)}

theorem pairwise_of_lt {names : List String} {R : String → String → Prop}
    (hsorted : names.Pairwise (· < ·)) (h : names.Pairwise R) {a b : String} (ha : a ∈ names)
    (hb : b ∈ names) (hab : a < b) : R a b := by
  have hboth : names.Pairwise fun a b ↦ (a < b → R a b) ∧ (b < a → R b a) :=
    (hsorted.and h).imp fun hab ↦ ⟨fun _ ↦ hab.2, fun hba ↦ absurd hba hab.1.asymm⟩
  have hsymm : Std.Symm fun a b ↦ (a < b → R a b) ∧ (b < a → R b a) := ⟨fun _ _ h ↦ h.symm⟩
  exact (hboth.forall ha hb hab.ne).1 hab

/-- Formulas that wait for nothing are written after those on the sheets they read just when these
sheets come first by their names. -/
theorem sortFormulas_pairwise_iff {reads : Edit φ → String → Bool}
    (hneeds : ∀ e ∈ es, e.needs? = none) :
    (sortFormulas es).Pairwise (fun e d ↦ d.sheet ≠ e.sheet → reads e d.sheet = false) ↔
      ∀ e ∈ es, ∀ d ∈ es, d.sheet ≠ e.sheet → reads e d.sheet = true → d.sheet < e.sheet := by
  have hsorted := sheetOrder_sorted hneeds
  have hmem : ∀ {e : Edit φ}, e ∈ es → e ∈ es.filter (·.sheet == e.sheet) :=
    fun he ↦ List.mem_filter.mpr ⟨he, beq_self_eq_true _⟩
  rw [sortFormulas, List.pairwise_flatMap]
  constructor
  · rintro ⟨-, hacross⟩ e he d hd hne hreads
    by_contra hlt
    have hlater : e.sheet < d.sheet := lt_of_le_of_ne (not_lt.mp hlt) hne.symm
    have hfalse := pairwise_of_lt hsorted hacross (mem_sheetOrder hneeds he)
      (mem_sheetOrder hneeds hd) hlater e (hmem he) d (hmem hd) hne
    exact Bool.false_ne_true (hfalse.symm.trans hreads)
  · intro h
    refine ⟨fun s _ ↦ ?_, hsorted.imp fun {s t} hst e he d hd hne ↦ ?_⟩
    · refine List.pairwise_of_forall_mem_list fun e he d hd hne ↦ absurd ?_ hne
      rw [beq_iff_eq.mp (List.mem_filter.mp he).2, beq_iff_eq.mp (List.mem_filter.mp hd).2]
    · obtain ⟨he, hes⟩ := List.mem_filter.mp he
      obtain ⟨hd, hdt⟩ := List.mem_filter.mp hd
      refine Bool.eq_false_iff.mpr fun hreads ↦ ?_
      have hlt := h e he d hd hne hreads
      rw [beq_iff_eq.mp hes, beq_iff_eq.mp hdt] at hlt
      exact hlt.asymm hst

end Schedule

namespace Layout

open Formula

variable {sources : Sources} {s : Progress} {p : Plan} {optimized : Bool}

def reads (e : Step) (name : String) : Bool := (refsOf e).any (·.sheet == some name)

theorem stage_of_reads {e : Step} {name : String} (h : reads e name = true) :
    e.stage = .formulas := by
  cases e with
  | formula => rfl
  | _ => cases h

/-- Every layout can be scheduled, as terms and as texts in the same order, and its formulas are all
written. They are written after all formulas on the other sheets that they read just when the name
of each such sheet comes before the name of the sheet that reads it. -/
theorem layOut_precedence (h : layOut p sources optimized = .ok s) (main : Option String) :
    ∃ order texts, Schedule.ofEdits s.edits main = .ok order ∧
      Schedule.ofEdits s.written main = .ok texts ∧
      texts.edits = order.edits.map (Edit.map Term.formula) ∧
      (Schedule.ofStage .formulas order.edits).Perm (Schedule.ofStage .formulas s.edits) ∧
      ((Schedule.ofStage .formulas order.edits).Pairwise
          (fun e d ↦ d.sheet ≠ e.sheet → reads e d.sheet = false) ↔
        ∀ e ∈ s.edits, ∀ d ∈ s.edits, d.stage = .formulas → d.sheet ≠ e.sheet →
          reads e d.sheet = true → d.sheet < e.sheet) := by
  obtain ⟨parts, htidy⟩ := tidy_of_layOut h
  obtain ⟨hnodup, hsheets, hneeds⟩ := htidy.written
  obtain ⟨texts, htexts⟩ := Schedule.exists_ofEdits hnodup hsheets hneeds main
  obtain ⟨order, horder⟩ := Schedule.exists_ofEdits (htidy.created ▸ htidy.nodup)
    (fun e he ↦ htidy.created ▸ htidy.sheet_mem he) (fun e he ↦ htidy.needs he) main
  have hformulas := Schedule.ofStage_edits horder .formulas
  rw [if_pos rfl] at hformulas
  have hneeds : ∀ e ∈ Schedule.ofStage .formulas s.edits, e.needs? = none :=
    fun e he ↦ htidy.needs (Schedule.mem_ofStage.mp he).1
  refine ⟨order, texts, horder, htexts, Schedule.edits_map _ horder htexts, ?_, ?_⟩
  · rw [hformulas]
    exact Schedule.sortFormulas_perm hneeds
  · rw [hformulas, Schedule.sortFormulas_pairwise_iff hneeds]
    simp only [Schedule.mem_ofStage]
    constructor
    · intro hall e he d hd hstage hne hreads
      exact hall e ⟨he, stage_of_reads hreads⟩ d ⟨hd, hstage⟩ hne hreads
    · exact fun hall e he d hd ↦ hall e he.1 d hd.1 hd.2

def arranged : Plan :=
  .node none (.sort [⟨"a", .asc⟩] none none)
    [.node none (.filter (.binary ">" (.column "a") (.literal (.int 0))))
      [.node none (.source "t" (some ["a"]) none) []]]

theorem layOut_precedence_arranged : ∃ s order, layOut arranged [] false = .ok s ∧
    Schedule.ofEdits s.edits none = .ok order ∧
    (∃ e ∈ s.edits, ∃ d ∈ s.edits, d.stage = .formulas ∧ d.sheet ≠ e.sheet ∧
      reads e d.sheet = true) ∧
    (Schedule.ofStage .formulas order.edits).Pairwise
      (fun e d ↦ d.sheet ≠ e.sheet → reads e d.sheet = false) := by
  obtain ⟨s, hs, hcheck⟩ := Outcome.exists_of_any (x := layOut arranged [] false)
    (P := fun s ↦ (∃ e ∈ s.edits, ∃ d ∈ s.edits, d.stage = .formulas ∧ d.sheet ≠ e.sheet ∧
        reads e d.sheet = true) ∧
      ∀ e ∈ s.edits, ∀ d ∈ s.edits, d.stage = .formulas → d.sheet ≠ e.sheet →
        reads e d.sheet = true → d.sheet < e.sheet) (by decide +kernel)
  obtain ⟨order, _, horder, -, -, -, hiff⟩ := layOut_precedence hs none
  exact ⟨s, order, hs, horder, hcheck.1, hiff.mpr hcheck.2⟩

def sifted : Plan :=
  .node none (.filter (.binary ">" (.column "a") (.literal (.int 0))))
    [.node none (.sort [⟨"a", .asc⟩] none none) [.node none (.source "t" (some ["a"]) none) []]]

/-- The formula that picks sorted rows is written before the formula that sorts them. -/
theorem layOut_sifted : ∃ s order, layOut sifted [] false = .ok s ∧
    Schedule.ofEdits s.edits none = .ok order ∧
    (Schedule.ofStage .formulas order.edits).map (fun e ↦ (e.sheet, reads e "Sort_1")) =
      [("Filter_2", true), ("Sort_1", false)] := by
  obtain ⟨s, hs, hcheck⟩ := Outcome.exists_of_any (x := layOut sifted [] false)
    (P := fun s ↦ ((Schedule.ofEdits s.edits none).toOption.any fun order ↦
      (Schedule.ofStage .formulas order.edits).map (fun e ↦ (e.sheet, reads e "Sort_1")) =
        [("Filter_2", true), ("Sort_1", false)]) = true) (by decide +kernel)
  obtain ⟨order, horder, hsheets⟩ := Outcome.exists_of_any hcheck
  exact ⟨s, order, hs, horder, hsheets⟩

end Layout

end Gridplan
