import Gridplan.Proofs.Workbook.Contents
import Gridplan.Proofs.Workbook.Order
import Mathlib.Data.List.Duplicate

namespace Gridplan

def Edit.title {φ : Type} : Edit φ → String
  | .create .. => "CreateSheet"
  | .values .. => "SetValues"
  | .formula .. => "SetFormula"
  | .named .. => "NamedRange"

namespace Schedule

variable {φ : Type} {es : List (Edit φ)} {main : Option String} {f : Fault}

/-- What is wrong with edits, by the refusal that says so: sheets are created more than once, an
edit is for a sheet that is not created, or a formula needs one. -/
inductive Flaw (es : List (Edit φ)) : Invalid → Prop
  | repeated {names : List String} (hne : names ≠ [])
      (h : ∀ n, n ∈ names ↔ List.Duplicate n (es.filterMap Edit.created)) :
      Flaw es (.repeatedSheets names)
  | absent {e : Edit φ} (he : e ∈ es) (h : e.sheet ∉ es.filterMap Edit.created) :
      Flaw es (.noSheet e.title e.sheet)
  | absentNeed {sheet : String} {row col : Int} {body : φ} {other : String}
      (he : .formula sheet row col body (some other) ∈ es) (hother : other ≠ "")
      (h : other ∉ es.filterMap Edit.created) : Flaw es (.noNeededSheet sheet other)

theorem mem_repeated {n : String} {names : List String} :
    n ∈ repeated names ↔ List.Duplicate n names := by
  induction names with
  | nil => simp [repeated]
  | cons m names ih =>
    rw [repeated, List.duplicate_cons_iff, ← ih]
    by_cases hm : m ∈ names
    · by_cases hn : n = m <;> simp [hm, hn, eq_comm]
    · by_cases hn : n = m
      · simp [hm, hn]
      · simp [hm, Ne.symm hn]

theorem exists_of_forM_eq_error {α : Type} {g : α → Outcome Unit} {xs : List α}
    (h : xs.forM g = .error f) : ∃ x ∈ xs, g x = .error f := by
  induction xs with
  | nil => cases h
  | cons x xs ih =>
    rw [List.forM_eq_forM] at h ih
    rw [List.forM_cons, Outcome.bind_eq_error] at h
    rcases h with hx | ⟨_, _, h⟩
    · exact ⟨x, by simp, hx⟩
    · obtain ⟨y, hy, hgy⟩ := ih h
      exact ⟨y, by simp [hy], hgy⟩

theorem flaw_of_checkSheets {e : Edit φ} (he : e ∈ es)
    (h : checkSheets (es.filterMap Edit.created) e = .error f) :
    ∃ r, f = .invalid r ∧ Flaw es r := by
  cases e with
  | create => cases h
  | values sheet | named _ sheet =>
    unfold checkSheets at h
    dsimp only at h
    split at h
    · cases h
    · next hout =>
      obtain rfl := Except.error.inj h
      exact ⟨_, rfl, .absent he (by simpa [Edit.sheet] using hout)⟩
  | formula sheet row col body needs =>
    unfold checkSheets at h
    dsimp only at h
    split at h
    · split at h
      · cases h
      · cases h
      · next other hother =>
        split at h
        · cases h
        · next hout =>
          obtain rfl := Except.error.inj h
          refine ⟨_, rfl, .absentNeed he ?_ (by simpa using hout)⟩
          rintro rfl
          exact hother rfl
    · next hout =>
      obtain rfl := Except.error.inj h
      exact ⟨_, rfl, .absent he (by simpa [Edit.sheet] using hout)⟩

theorem mem_of_checkSheets {created : List String} {sheet : String} {row col : Int} {body : φ}
    {other : String} (h : checkSheets created (.formula sheet row col body (some other)) = .ok ())
    (hother : other ≠ "") : other ∈ created := by
  by_contra hout
  by_cases hsheet : sheet ∈ created <;> simp [checkSheets, hsheet, hout] at h

theorem flaw_of_check (h : check es = .error f) : ∃ r, f = .invalid r ∧ Flaw es r := by
  rw [check, sheet_ofStage_create] at h
  dsimp only at h
  split at h
  · have hstage : ∀ t, (ofStage t es).forM (checkSheets (es.filterMap Edit.created)) = .error f →
        ∃ r, f = .invalid r ∧ Flaw es r := by
      intro t ht
      obtain ⟨e, he, hf⟩ := exists_of_forM_eq_error ht
      exact flaw_of_checkSheets (mem_ofStage.mp he).1 hf
    simp only [List.forIn_cons, List.forIn_nil, bind_assoc, pure_bind, Outcome.bind_eq_error] at h
    rcases h with h | ⟨_, _, h | ⟨_, _, h | ⟨_, _, h⟩⟩⟩
    · exact hstage _ h
    · exact hstage _ h
    · exact hstage _ h
    · cases h
  · next hsome =>
    obtain rfl := Except.error.inj h
    refine ⟨_, rfl, .repeated (fun hnone ↦ hsome ?_) fun n ↦ mem_distinct.trans mem_repeated⟩
    refine List.eq_nil_iff_forall_not_mem.mpr fun n hn ↦ ?_
    exact List.not_mem_nil (hnone ▸ mem_distinct.mpr hn)

theorem exists_flaw_iff : (∃ r, Flaw es r) ↔
    ¬(es.filterMap Edit.created).Nodup ∨ (∃ e ∈ es, e.sheet ∉ es.filterMap Edit.created) ∨
      ∃ sheet row col body other, .formula sheet row col body (some other) ∈ es ∧ other ≠ "" ∧
        other ∉ es.filterMap Edit.created := by
  constructor
  · rintro ⟨r, hflaw⟩
    cases hflaw with
    | @repeated names hne hnames =>
      obtain ⟨n, hn⟩ := List.exists_mem_of_ne_nil _ hne
      exact .inl (List.exists_duplicate_iff_not_nodup.mp ⟨n, (hnames n).mp hn⟩)
    | absent he hout => exact .inr (.inl ⟨_, he, hout⟩)
    | absentNeed he hother hout => exact .inr (.inr ⟨_, _, _, _, _, he, hother, hout⟩)
  · rintro (hdup | ⟨e, he, hout⟩ | ⟨sheet, row, col, body, other, he, hother, hout⟩)
    · obtain ⟨n, hn⟩ := List.exists_duplicate_iff_not_nodup.mpr hdup
      exact ⟨.repeatedSheets (repeated (es.filterMap Edit.created)),
        .repeated (List.ne_nil_of_mem (mem_repeated.mpr hn)) fun _ ↦ mem_repeated⟩
    · exact ⟨_, .absent he hout⟩
    · exact ⟨_, .absentNeed he hother hout⟩

theorem flaw_of_ofEdits (h : ofEdits es main = .error f) : ∃ r, f = .invalid r ∧ Flaw es r := by
  rcases Outcome.bind_eq_error.mp h with h | ⟨_, -, h⟩
  · exact flaw_of_check h
  · cases h

theorem not_flaw_of_ofEdits {order : Schedule φ} (h : ofEdits es main = .ok order) :
    ¬∃ r, Flaw es r := by
  obtain ⟨_, hcheck, -⟩ := Outcome.bind_eq_ok.mp h
  rw [exists_flaw_iff, ← sheet_ofStage_create]
  rintro (hdup | ⟨e, he, hout⟩ | ⟨sheet, row, col, body, other, he, hother, hout⟩)
  · exact hdup (nodup_of_check hcheck)
  · exact hout (sheet_mem_created h he)
  · exact hout (mem_of_checkSheets (checkSheets_of_check hcheck he) hother)

theorem stages_ofEdits {order : Schedule φ} (h : ofEdits es main = .ok order) :
    order.batches.map (·.stage) = Stage.all.filter fun t ↦ !(ofStage t es).isEmpty := by
  obtain ⟨_, _, h⟩ := Outcome.bind_eq_ok.mp h
  obtain rfl := Except.ok.inj h
  rw [List.map_filterMap, ← List.filterMap_eq_filter]
  refine List.filterMap_congr fun t _ ↦ ?_
  by_cases ht : ofStage t es = [] <;> simp [batch?, Option.guard, ht]

theorem batch_of_mem {order : Schedule φ} (h : ofEdits es main = .ok order) {b : Batch φ}
    (hb : b ∈ order.batches) :
    b.edits = (if b.stage = .formulas then sortFormulas (ofStage b.stage es)
      else ofStage b.stage es) ∧ b.targets = sheetsOf b.edits := by
  obtain ⟨_, _, h⟩ := Outcome.bind_eq_ok.mp h
  obtain rfl := Except.ok.inj h
  obtain ⟨t, -, ht⟩ := List.mem_filterMap.mp hb
  rw [batch?] at ht
  dsimp only at ht
  split at ht
  · cases ht
  · obtain rfl := Option.some.inj ht
    exact ⟨rfl, rfl⟩

/-- Edits are refused just when two of them create a sheet of one name, one of them is for a sheet
that none creates, or a formula names such a sheet as its need. Otherwise the schedule has a batch
for each stage with edits, in the order of the stages. The batches hold the edits of their stage, in
the order given but for the formulas, and list the sheets of their edits, each once. -/
theorem ofEdits_refuses_iff (es : List (Edit φ)) (main : Option String) :
    ((∃ r, ofEdits es main = .error (.invalid r)) ↔
      ¬(es.filterMap Edit.created).Nodup ∨ (∃ e ∈ es, e.sheet ∉ es.filterMap Edit.created) ∨
        ∃ sheet row col body other, .formula sheet row col body (some other) ∈ es ∧ other ≠ "" ∧
          other ∉ es.filterMap Edit.created) ∧
    ((¬∃ r, ofEdits es main = .error (.invalid r)) → ∃ order, ofEdits es main = .ok order ∧
      (order.batches.map (·.stage)).Sublist Stage.all ∧
      (∀ t, t ∈ order.batches.map (·.stage) ↔ ∃ e ∈ es, e.stage = t) ∧
      ∀ b ∈ order.batches, (b.stage ≠ .formulas → b.edits = ofStage b.stage es) ∧
        b.targets.Nodup ∧ ∀ s, s ∈ b.targets ↔ ∃ e ∈ b.edits, e.sheet = s) := by
  refine ⟨?_, fun hnot ↦ ?_⟩
  · rw [← exists_flaw_iff]
    cases h : ofEdits es main with
    | ok order => simpa using not_flaw_of_ofEdits h
    | error f =>
      obtain ⟨r, rfl, hr⟩ := flaw_of_ofEdits h
      exact iff_of_true ⟨r, rfl⟩ ⟨r, hr⟩
  · cases h : ofEdits es main with
    | error f =>
      obtain ⟨r, rfl, -⟩ := flaw_of_ofEdits h
      exact absurd ⟨r, h⟩ hnot
    | ok order =>
      refine ⟨order, rfl, ?_, fun t ↦ ?_, fun b hb ↦ ?_⟩
      · rw [stages_ofEdits h]
        exact List.filter_sublist
      · have hall : t ∈ Stage.all := by cases t <;> decide
        rw [stages_ofEdits h]
        simp [hall, List.eq_nil_iff_forall_not_mem]
      · obtain ⟨hedits, htargets⟩ := batch_of_mem h hb
        refine ⟨fun hstage ↦ hedits.trans (if_neg hstage), ?_, fun s ↦ ?_⟩
        · rw [htargets]
          exact nodup_sheetsOf b.edits
        · rw [htargets]
          exact mem_sheetsOf

def reported : List (Edit String) :=
  [.named "total" "T" 0 0 1 0, .formula "T" 1 0 "=1" (some "T"),
    .values "T" 0 0 (.list [.list [.text "a"]]), .create "T" (.int 3) 1]

theorem ofEdits_refuses_iff_reported :
    (∃ order, ofEdits reported none = .ok order ∧
      (order.batches.map (·.stage)).Sublist Stage.all ∧
      (∀ t, t ∈ order.batches.map (·.stage)) ∧
      ∀ b ∈ order.batches, ∀ s, s ∈ b.targets ↔ ∃ e ∈ b.edits, e.sheet = s) ∧
    ∃ r, ofEdits reported.dropLast none = .error (.invalid r) := by
  obtain ⟨-, haccepts⟩ := ofEdits_refuses_iff reported none
  obtain ⟨hrefuses, -⟩ := ofEdits_refuses_iff reported.dropLast none
  have hok : (ofEdits reported none).isOk = true := by decide +kernel
  have hnot : ¬∃ r, ofEdits reported none = .error (.invalid r) := by
    rintro ⟨r, hr⟩
    rw [hr] at hok
    cases hok
  obtain ⟨order, horder, hstages, hmem, hbatches⟩ := haccepts hnot
  refine ⟨⟨order, horder, hstages, fun t ↦ (hmem t).mpr ?_, fun b hb ↦ (hbatches b hb).2.2⟩,
    hrefuses.mpr (.inr (.inl ⟨.named "total" "T" 0 0 1 0, ?_, ?_⟩))⟩
  · cases t <;> simp [reported, Edit.stage]
  · simp [reported]
  · simp [reported, Edit.created]

end Schedule

end Gridplan
