import Gridplan.Proofs.Workbook.Schedule

namespace Gridplan.Schedule

variable {φ : Type} {es fs : List (Edit φ)} {s t : String}

theorem mem_sheetsOf : s ∈ sheetsOf es ↔ ∃ e ∈ es, e.sheet = s := by simp [sheetsOf]

theorem mem_needsOf : t ∈ needsOf es s ↔ ∃ e ∈ es, e.sheet = s ∧ e.needs? = some t := by
  simp [needsOf, and_assoc]

theorem mem_sheetsOf_of_mem_sheetOrder (h : s ∈ sheetOrder es) : s ∈ sheetsOf es := by
  obtain ⟨rest, -, hperm, -⟩ := sheetOrder_spec es
  exact hperm.subset (List.mem_append_left _ h)

theorem ordered_sheetOrder (es : List (Edit φ)) : Ordered (needsOf es) (sheetOrder es) := by
  obtain ⟨_, hord, -, -⟩ := sheetOrder_spec es
  exact hord

theorem mem_sortFormulas {e : Edit φ} : e ∈ sortFormulas es ↔ e ∈ es ∧ e.sheet ∈ sheetOrder es := by
  simp only [sortFormulas, List.mem_flatMap, List.mem_filter, beq_iff_eq]
  constructor
  · rintro ⟨s, hs, he, rfl⟩
    exact ⟨he, hs⟩
  · rintro ⟨he, hs⟩
    exact ⟨e.sheet, hs, he, rfl⟩

theorem sortFormulas_subperm (es : List (Edit φ)) : (sortFormulas es).Subperm es := by
  obtain ⟨rest, -, hperm, -⟩ := sheetOrder_spec es
  have hall := gathered_perm Edit.sheet (nodup_sheetsOf es) fun (e : Edit φ) (he : e ∈ es) ↦
    mem_sheetsOf.mpr ⟨e, he, rfl⟩
  have hmore := (hperm.flatMap_right fun s ↦ es.filter (·.sheet == s)).trans hall
  rw [List.flatMap_append] at hmore
  exact (List.sublist_append_left ..).subperm.trans hmore.subperm

theorem sortFormulas_together (h : s ∈ sheetOrder es) :
    ∃ before after, sortFormulas es = before ++ es.filter (·.sheet == s) ++ after ∧
      ∀ e ∈ before ++ after, e.sheet ≠ s := by
  obtain ⟨before, after, hsplit⟩ := List.append_of_mem h
  have hnodup := nodup_sheetOrder es
  rw [hsplit] at hnodup
  have hout := (List.nodup_cons.mp (List.nodup_middle.mp hnodup)).1
  refine ⟨before.flatMap fun t ↦ es.filter (·.sheet == t),
    after.flatMap fun t ↦ es.filter (·.sheet == t), ?_, ?_⟩
  · rw [sortFormulas, hsplit, List.flatMap_append, List.flatMap_cons, List.append_assoc]
  · rw [← List.flatMap_append]
    intro e he hes
    obtain ⟨t, ht, he⟩ := List.mem_flatMap.mp he
    rw [List.mem_filter, hes, beq_iff_eq] at he
    exact hout (he.2 ▸ ht)

theorem sortFormulas_pairwise (h : t ∈ needsOf es s) (hne : t ≠ s) :
    (sortFormulas es).Pairwise fun d e ↦ ¬(d.sheet = s ∧ e.sheet = t) := by
  have hsheet : ∀ {r : String} {e : Edit φ}, e ∈ es.filter (·.sheet == r) → e.sheet = r :=
    fun he ↦ beq_iff_eq.mp (List.mem_filter.mp he).2
  rw [sortFormulas, List.pairwise_flatMap]
  constructor
  · refine fun r _ ↦ List.pairwise_of_forall_mem_list fun d hd e he hde ↦ hne ?_
    rw [← hde.1, ← hde.2, hsheet hd, hsheet he]
  · refine ((ordered_sheetOrder es).pairwise (nodup_sheetOrder es)).imp ?_
    intro r u hru d hd e he hde
    rw [← hsheet hd, ← hsheet he, hde.1, hde.2] at hru
    exact hru h

theorem sortFormulas_congr (h : ∀ s, es.filter (·.sheet == s) = fs.filter (·.sheet == s)) :
    sortFormulas es = sortFormulas fs := by
  have hneeds : needsOf es = needsOf fs := by
    funext s
    rw [needsOf, needsOf, h s]
  have hmem : ∀ s, s ∈ sheetsOf es ↔ s ∈ sheetsOf fs := by
    have hfilter : ∀ (ds : List (Edit φ)) (s : String),
        s ∈ sheetsOf ds ↔ ds.filter (·.sheet == s) ≠ [] := by
      intro ds s
      simp [mem_sheetsOf]
    intro s
    rw [hfilter, hfilter, h s]
  have hsheets : (sheetsOf es).Perm (sheetsOf fs) :=
    (List.perm_ext_iff_of_nodup (nodup_sheetsOf es) (nodup_sheetsOf fs)).mpr hmem
  have horder : sheetOrder es = sheetOrder fs := by
    rw [sheetOrder_eq_arrange, sheetOrder_eq_arrange, hneeds, hsheets.length_eq,
      arrange_eq_of_perm _ hsheets]
  rw [sortFormulas, sortFormulas, horder]
  exact List.flatMap_congr fun s _ ↦ h s

theorem needs?_eq_some {sheet : String} {row col : Int} {body : φ} {other : String}
    (hother : other ≠ "") (hne : other ≠ sheet) :
    (Edit.formula sheet row col body (some other)).needs? = some other := by
  simp [Edit.needs?, hother, hne]

/-- Formulas come sheet by sheet, none more often than it is given. With a formula of a sheet come
all of them, together and in the order given. When a formula names another sheet as its need, that
sheet has formulas as well, all before those of its own sheet. Only the formulas of each sheet for
themselves matter, not how the sheets are mixed. -/
theorem sortFormulas_topological (es : List (Edit φ)) :
    (sortFormulas es).Subperm es ∧
    (∀ e ∈ sortFormulas es, ∃ before after,
      sortFormulas es = before ++ es.filter (·.sheet == e.sheet) ++ after ∧
      ∀ d ∈ before ++ after, d.sheet ≠ e.sheet) ∧
    (∀ sheet row col body other, .formula sheet row col body (some other) ∈ sortFormulas es →
      other ≠ "" → other ≠ sheet →
        (∃ d ∈ sortFormulas es, d.sheet = other) ∧
        (sortFormulas es).Pairwise fun d e ↦ ¬(d.sheet = sheet ∧ e.sheet = other)) ∧
    ∀ fs : List (Edit φ), (∀ s, es.filter (·.sheet == s) = fs.filter (·.sheet == s)) →
      sortFormulas es = sortFormulas fs := by
  refine ⟨sortFormulas_subperm es, fun e he ↦ ?_, fun sheet row col body other he hother hne ↦ ?_,
    fun fs h ↦ sortFormulas_congr h⟩
  · exact sortFormulas_together (mem_sortFormulas.mp he).2
  · obtain ⟨hmem, hsheet⟩ := mem_sortFormulas.mp he
    have hneeds : other ∈ needsOf es sheet :=
      mem_needsOf.mpr ⟨_, hmem, rfl, needs?_eq_some hother hne⟩
    have hother := (ordered_sheetOrder es).closed sheet hsheet other hneeds
    obtain ⟨d, hd, rfl⟩ := mem_sheetsOf.mp (mem_sheetsOf_of_mem_sheetOrder hother)
    exact ⟨⟨d, mem_sortFormulas.mpr ⟨hd, hother⟩, rfl⟩, sortFormulas_pairwise hneeds hne⟩

def chained : List (Edit String) :=
  [.formula "A" 0 0 "=B!A1" (some "B"), .formula "C" 0 0 "=1" none,
    .formula "A" 0 1 "=C!A1" (some "C"), .formula "B" 0 0 "=C!A1" (some "C")]

def rechained : List (Edit String) :=
  [.formula "C" 0 0 "=1" none, .formula "A" 0 0 "=B!A1" (some "B"),
    .formula "A" 0 1 "=C!A1" (some "C"), .formula "B" 0 0 "=C!A1" (some "C")]

theorem sortFormulas_topological_chained :
    (∃ d ∈ sortFormulas chained, d.sheet = "B") ∧
    ((sortFormulas chained).Pairwise fun d e ↦ ¬(d.sheet = "A" ∧ e.sheet = "B")) ∧
    sortFormulas chained = sortFormulas rechained := by
  obtain ⟨-, -, hneeds, hmixed⟩ := sortFormulas_topological chained
  have hmem : .formula "A" 0 0 "=B!A1" (some "B") ∈ sortFormulas chained :=
    mem_sortFormulas.mpr ⟨by simp [chained], by decide +kernel⟩
  have hsame : ∀ s, chained.filter (·.sheet == s) = rechained.filter (·.sheet == s) := by
    intro s
    by_cases ha : "A" = s
    · subst ha
      rfl
    · simp [chained, rechained, List.filter_cons, Edit.sheet, ha]
  obtain ⟨hoccurs, hbefore⟩ := hneeds _ _ _ _ _ hmem (by decide) (by decide)
  exact ⟨hoccurs, hbefore, hmixed rechained hsame⟩

def unnamed : List (Edit String) :=
  [.formula "B" 0 0 "=1" (some ""), .formula "" 0 0 "=C!A1" (some "C"), .formula "C" 0 0 "=1" none]

/-- The empty name is no need: what bears it may come later. -/
theorem sortFormulas_unnamed : .formula "B" 0 0 "=1" (some "") ∈ sortFormulas unnamed ∧
    ¬(sortFormulas unnamed).Pairwise fun d e ↦ ¬(d.sheet = "B" ∧ e.sheet = "") := by
  have hsheets : (sortFormulas unnamed).map (·.sheet) = ["B", "C", ""] := by decide +kernel
  refine ⟨mem_sortFormulas.mpr ⟨by simp [unnamed], by decide +kernel⟩, fun h ↦ ?_⟩
  have hpairs : ((sortFormulas unnamed).map (·.sheet)).Pairwise
      fun s t ↦ ¬(s = "B" ∧ t = "") := List.pairwise_map.mpr h
  rw [hsheets] at hpairs
  simp at hpairs

end Gridplan.Schedule
