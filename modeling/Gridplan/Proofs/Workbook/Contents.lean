import Gridplan.Proofs.Layout.Parts
import Gridplan.Proofs.Workbook.Schedule

namespace Gridplan

variable {φ ψ : Type}

inductive Content (φ : Type) where
  | value (d : Datum)
  | formula (body : φ)

/-- The rows of a matrix with their cells; data that cannot be gone through has none. -/
def Datum.matrix (d : Datum) : List (List Datum) :=
  (d.items.toOption.getD []).map fun row ↦ row.items.toOption.getD []

namespace Edit

def writes : Edit φ → List ((Int × Int) × Content φ)
  | .values _ row col cells =>
    cells.matrix.zipIdx.flatMap fun (xs, i) ↦
      xs.zipIdx.map fun (x, j) ↦ ((row + i, col + j), .value x)
  | .formula _ row col body _ => [((row, col), .formula body)]
  | _ => []

def cells (e : Edit φ) : List (Int × Int) := e.writes.map (·.1)

def Apart (d e : Edit φ) : Prop := d.sheet = e.sheet → d.cells.Disjoint e.cells

theorem Apart.symm {d e : Edit φ} (h : Apart d e) : Apart e d :=
  fun hs ↦ (h hs.symm).symm

end Edit

abbrev Workbook (φ : Type) := String → Option (Int × Int → Option (Content φ))

namespace Workbook

def write (cells : Int × Int → Option (Content φ)) (ws : List ((Int × Int) × Content φ)) :
    Int × Int → Option (Content φ) :=
  ws.foldl (fun cells w ↦ Function.update cells w.1 (some w.2)) cells

/-- The workbook after an edit. No sheet is created again, and none is changed before it is
created. -/
def apply (w : Workbook φ) : Edit φ → Option (Workbook φ)
  | .create name _ _ =>
    if (w name).isSome then none else some (Function.update w name (some fun _ ↦ none))
  | e => (w e.sheet).map fun cells ↦ Function.update w e.sheet (some (write cells e.writes))

def ofEdits (es : List (Edit φ)) : Option (Workbook φ) := es.foldlM apply fun _ ↦ none

def Opens (es : List (Edit φ)) : Prop :=
  ∀ before e after, es = before ++ e :: after → e.created = none →
    e.sheet ∈ before.filterMap Edit.created

/-- Whether a workbook has just what edits have written, in whatever order. -/
structure Holds (es : List (Edit φ)) (w : Workbook φ) : Prop where
  sheets : ∀ name, (w name).isSome ↔ name ∈ es.filterMap Edit.created
  opened : ∀ e ∈ es, e.sheet ∈ es.filterMap Edit.created
  cells : ∀ name cells, w name = some cells → ∀ cell content,
    cells cell = some content ↔ ∃ e ∈ es, e.sheet = name ∧ (cell, content) ∈ e.writes

end Workbook

namespace Edit

theorem zipIdx_pairwise {α : Type} (xs : List α) : xs.zipIdx.Pairwise fun a b ↦ a.2 ≠ b.2 := by
  have h : (xs.zipIdx.map Prod.snd).Pairwise (· ≠ ·) := by
    rw [List.zipIdx_map_snd]
    exact List.nodup_range'
  exact List.pairwise_map.mp h

theorem cells_nodup (e : Edit φ) : e.cells.Nodup := by
  cases e with
  | create | named => exact List.nodup_nil
  | formula => exact List.nodup_singleton _
  | values sheet row col d =>
    simp only [cells, writes, List.map_flatMap, List.map_map]
    refine List.nodup_flatMap.mpr ⟨fun (xs, i) _ ↦ ?_, ?_⟩
    · refine (List.pairwise_map.mpr ((zipIdx_pairwise xs).imp fun h ↦ ?_))
      simpa using h
    · refine (zipIdx_pairwise d.matrix).imp fun h ↦ ?_
      rw [Function.onFun, List.disjoint_left]
      rintro ⟨r, c⟩ ha hb
      simp only [List.mem_map, Function.comp_apply, Prod.mk.injEq] at ha hb
      obtain ⟨_, _, ha, _⟩ := ha
      obtain ⟨_, _, hb, _⟩ := hb
      exact h (by omega)

section Map

variable (f : φ → ψ) (e : Edit φ)

@[simp] theorem sheet_map : (e.map f).sheet = e.sheet := by cases e <;> rfl

@[simp] theorem created_map : (e.map f).created = e.created := by cases e <;> rfl

@[simp] theorem stage_map : (e.map f).stage = e.stage := by cases e <;> rfl

@[simp] theorem needs?_map : (e.map f).needs? = e.needs? := by
  cases e with
  | formula sheet row col body needs => cases needs <;> rfl
  | _ => rfl

@[simp] theorem cells_map : (e.map f).cells = e.cells := by
  cases e with
  | values => simp [cells, writes, Edit.map, List.map_flatMap, Function.comp_def]
  | _ => rfl

end Map

end Edit

namespace Schedule

variable {es : List (Edit φ)}

theorem sheet_ofStage_create (es : List (Edit φ)) :
    (ofStage .create es).map (·.sheet) = es.filterMap Edit.created := by
  induction es with
  | nil => rfl
  | cons e es ih =>
    cases e with
    | create name => exact congrArg (name :: ·) ih
    | _ => exact ih

theorem exists_ofEdits (hcreated : (es.filterMap Edit.created).Nodup)
    (hsheets : ∀ e ∈ es, e.sheet ∈ es.filterMap Edit.created)
    (hneeds : ∀ e ∈ es, e.needs? = none) (main : Option String) :
    ∃ s, ofEdits es main = .ok s := by
  have hcheck : check es = .ok () := by
    rw [← sheet_ofStage_create] at hcreated hsheets
    exact check_eq_ok hcreated fun e he ↦ checkSheets_eq_ok (hsheets e he) (hneeds e he)
  exact ⟨_, by rw [ofEdits, hcheck, Outcome.ok_bind]; rfl⟩

end Schedule

namespace Workbook

variable {es fs : List (Edit φ)} {w v : Workbook φ} {e : Edit φ}

theorem write_eq_some {ws : List ((Int × Int) × Content φ)} (h : (ws.map (·.1)).Nodup)
    {cells : Int × Int → Option (Content φ)} {cell : Int × Int} {content : Content φ} :
    write cells ws cell = some content ↔
      (cell, content) ∈ ws ∨ cell ∉ ws.map (·.1) ∧ cells cell = some content := by
  induction ws generalizing cells with
  | nil => simp [write]
  | cons x ws ih =>
    obtain ⟨hx, hws⟩ := List.nodup_cons.mp h
    have hstep : write cells (x :: ws) = write (Function.update cells x.1 (some x.2)) ws := rfl
    rw [hstep, ih hws]
    by_cases hc : cell = x.1
    · subst hc
      have hout : ∀ c, (x.1, c) ∉ ws := fun c hm ↦ hx (List.mem_map.mpr ⟨_, hm, rfl⟩)
      simp [hx, hout, Prod.ext_iff, eq_comm]
    · simp [hc, Prod.ext_iff]

theorem apply_of_not_creates (h : e.created = none) :
    w.apply e = (w e.sheet).map fun cells ↦
      Function.update w e.sheet (some (write cells e.writes)) := by
  cases e with
  | create => cases h
  | _ => rfl

theorem writes_of_creates {name : String} (h : e.created = some name) :
    e.writes = [] ∧ e.sheet = name := by
  cases e with
  | create => exact ⟨rfl, Option.some.inj h⟩
  | _ => cases h

theorem Holds.create {name : String} (h : Holds es w) (he : e.created = some name)
    (hname : name ∉ es.filterMap Edit.created) :
    ∃ v, w.apply e = some v ∧ Holds (es ++ [e]) v := by
  obtain ⟨hnone, hsheet⟩ := writes_of_creates he
  have hw : w name = none := Option.not_isSome_iff_eq_none.mp fun hs ↦ hname ((h.sheets name).mp hs)
  have happly : w.apply e = some (Function.update w name (some fun _ ↦ none)) := by
    cases e with
    | create n rows cols =>
      obtain rfl : n = name := Option.some.inj he
      simp [apply, hw]
    | _ => cases he
  have hcreated : (es ++ [e]).filterMap Edit.created = es.filterMap Edit.created ++ [name] := by
    simp [he]
  refine ⟨_, happly, ⟨fun n ↦ ?_, fun d hd ↦ ?_, fun n cells hn cell content ↦ ?_⟩⟩
  · rw [hcreated, List.mem_append, ← h.sheets]
    by_cases hnn : n = name <;> simp [hnn]
  · rw [hcreated]
    rcases List.mem_append.mp hd with hd | hd
    · exact List.mem_append_left _ (h.opened d hd)
    · rw [List.mem_singleton.mp hd, hsheet]
      simp
  · have hmem : (∃ d ∈ es ++ [e], d.sheet = n ∧ (cell, content) ∈ d.writes) ↔
        ∃ d ∈ es, d.sheet = n ∧ (cell, content) ∈ d.writes := by
      simp [or_and_right, exists_or, hnone]
    rw [hmem]
    by_cases hnn : n = name
    · subst hnn
      obtain rfl : (fun _ ↦ none) = cells := by simpa using hn
      -- nothing can have been written to a sheet that was not there
      refine iff_of_false (by simp) ?_
      rintro ⟨d, hd, rfl, _⟩
      exact hname (h.opened d hd)
    · exact h.cells n cells (by simpa [hnn] using hn) cell content

theorem Holds.change (h : Holds es w) (he : e.created = none)
    (hsheet : e.sheet ∈ es.filterMap Edit.created) (hapart : ∀ d ∈ es, d.Apart e) :
    ∃ v, w.apply e = some v ∧ Holds (es ++ [e]) v := by
  obtain ⟨old, hold⟩ := Option.isSome_iff_exists.mp ((h.sheets e.sheet).mpr hsheet)
  have happly : w.apply e =
      some (Function.update w e.sheet (some (write old e.writes))) := by
    rw [apply_of_not_creates he, hold]
    rfl
  have hcreated : (es ++ [e]).filterMap Edit.created = es.filterMap Edit.created := by simp [he]
  refine ⟨_, happly, ⟨fun n ↦ ?_, fun d hd ↦ ?_, fun n cells hn cell content ↦ ?_⟩⟩
  · rw [hcreated, ← h.sheets]
    by_cases hn : n = e.sheet <;> simp [hn, hold]
  · rw [hcreated]
    rcases List.mem_append.mp hd with hd | hd
    · exact h.opened d hd
    · rwa [List.mem_singleton.mp hd]
  · have hmem : (∃ d ∈ es ++ [e], d.sheet = n ∧ (cell, content) ∈ d.writes) ↔
        (e.sheet = n ∧ (cell, content) ∈ e.writes) ∨
          ∃ d ∈ es, d.sheet = n ∧ (cell, content) ∈ d.writes := by
      simp [or_and_right, exists_or, or_comm]
    rw [hmem]
    by_cases hne : n = e.sheet
    · subst hne
      obtain rfl : write old e.writes = cells := by simpa using hn
      rw [write_eq_some (Edit.cells_nodup e), h.cells _ _ hold]
      -- earlier edits of the sheet have left the cells of this one alone
      have hout : (∃ d ∈ es, d.sheet = e.sheet ∧ (cell, content) ∈ d.writes) →
          cell ∉ e.writes.map (·.1) := by
        rintro ⟨d, hd, hds, hdw⟩ hc
        exact hapart d hd hds (List.mem_map_of_mem hdw) hc
      simp only [true_and]
      exact or_congr_right (and_iff_right_of_imp hout)
    · have hn' : w n = some cells := by simpa [hne] using hn
      rw [h.cells n cells hn' cell content]
      simp [Ne.symm hne]

theorem Opens.left (h : Opens (es ++ fs)) : Opens es :=
  fun before e after hes ↦ h before e (after ++ fs) (by simp [hes])

theorem Opens.append (h : Opens es) (h' : Opens fs) : Opens (es ++ fs) := by
  intro before e after heq he
  rcases List.append_eq_append_iff.mp heq with ⟨middle, rfl, hfs⟩ | ⟨middle, hes, hrest⟩
  · rw [List.filterMap_append]
    exact List.mem_append_right _ (h' middle e after hfs he)
  · cases middle with
    | nil => exact absurd (h' [] e after (by simpa using hrest.symm) he) List.not_mem_nil
    | cons d middle =>
      obtain rfl : e = d := (List.cons.inj hrest).1
      exact h before e middle hes he

/-- Edits that create each sheet once, before it is changed, and never share a cell can all be made,
and nothing is lost. -/
theorem holds_ofEdits (hopen : Opens es) (hcreated : (es.filterMap Edit.created).Nodup)
    (hapart : es.Pairwise Edit.Apart) : ∃ w, ofEdits es = some w ∧ Holds es w := by
  induction es using List.reverseRecOn with
  | nil => exact ⟨fun _ ↦ none, rfl, ⟨by simp, by simp, by simp⟩⟩
  | append_singleton es e ih =>
    rw [List.filterMap_append, List.nodup_append] at hcreated
    obtain ⟨hes, _, hcross⟩ := List.pairwise_append.mp hapart
    obtain ⟨w, hw, hholds⟩ := ih hopen.left hcreated.1 hes
    have hstep : ∃ v, w.apply e = some v ∧ Holds (es ++ [e]) v := by
      cases he : e.created with
      | none =>
        exact hholds.change he (hopen es e [] rfl he) fun d hd ↦ hcross d hd e (by simp)
      | some name =>
        refine hholds.create he fun hname ↦ ?_
        exact hcreated.2.2 name hname name (by simp [he]) rfl
    obtain ⟨v, hv, hholds⟩ := hstep
    refine ⟨v, ?_, hholds⟩
    rw [ofEdits, List.foldlM_append]
    simp [show List.foldlM apply (fun _ ↦ none) es = some w from hw, hv]

theorem Holds.perm (h : Holds es w) (hp : es.Perm fs) : Holds fs w where
  sheets name := (h.sheets name).trans (hp.filterMap _).mem_iff
  opened e he := (hp.filterMap _).mem_iff.mp (h.opened e (hp.mem_iff.mpr he))
  cells name cells hn cell content :=
    (h.cells name cells hn cell content).trans (by simp only [hp.mem_iff])

theorem Holds.unique (h : Holds es w) (h' : Holds es v) : w = v := by
  funext name
  cases hw : w name with
  | none =>
    have hout : name ∉ es.filterMap Edit.created := fun hm ↦ by
      simpa [hw] using (h.sheets name).mpr hm
    exact (Option.not_isSome_iff_eq_none.mp fun hs ↦ hout ((h'.sheets name).mp hs)).symm
  | some cells =>
    have hin := (h.sheets name).mp (by simp [hw])
    obtain ⟨others, hv⟩ := Option.isSome_iff_exists.mp ((h'.sheets name).mpr hin)
    rw [hv]
    congr 1
    funext cell
    refine Option.ext fun content ↦ ?_
    rw [h.cells name cells hw, h'.cells name others hv]

theorem ofEdits_perm (hp : es.Perm fs) (hopen : Opens es) (hopen' : Opens fs)
    (hcreated : (es.filterMap Edit.created).Nodup) (hapart : es.Pairwise Edit.Apart) :
    ofEdits es = ofEdits fs := by
  obtain ⟨w, hw, hholds⟩ := holds_ofEdits hopen hcreated hapart
  obtain ⟨v, hv, hholds'⟩ := holds_ofEdits hopen' ((hp.filterMap _).nodup_iff.mp hcreated)
    (hp.pairwise hapart fun h ↦ h.symm)
  rw [hw, hv, (hholds.perm hp).unique hholds']

theorem opens_append (es : List (Edit φ)) (hes : ∀ e ∈ es, e.created ≠ none)
    (hfs : ∀ e ∈ fs, e.sheet ∈ es.filterMap Edit.created) : Opens (es ++ fs) := by
  intro before e after heq he
  rcases List.append_eq_append_iff.mp heq with ⟨middle, rfl, hfs'⟩ | ⟨middle, rfl, hrest⟩
  · have hmem : e ∈ fs := by simp [hfs']
    rw [List.filterMap_append]
    exact List.mem_append_left _ (hfs e hmem)
  · cases middle with
    | nil =>
      have hmem : e ∈ fs := by
        rw [List.nil_append] at hrest
        simp [← hrest]
      simpa using hfs e hmem
    | cons d middle =>
      obtain rfl : e = d := (List.cons.inj hrest).1
      exact absurd he (hes e (by simp))

theorem opens_schedule {s : Schedule φ} {main : Option String}
    (h : Schedule.ofEdits es main = .ok s)
    (hsheets : ∀ e ∈ es, e.sheet ∈ es.filterMap Edit.created) : Opens s.edits := by
  have hcreated : (Schedule.ofStage .create es).filterMap Edit.created =
      es.filterMap Edit.created := by
    rw [← Schedule.sheet_ofStage_create, ← Schedule.sheet_ofStage_create,
      Schedule.ofStage_ofStage, if_pos rfl]
  rw [Schedule.edits_ofEdits h, List.append_assoc, List.append_assoc]
  refine opens_append _ (fun e he ↦ ?_) fun e he ↦ ?_
  · obtain ⟨_, he⟩ := Schedule.mem_ofStage.mp he
    cases e with
    | create => simp [Edit.created]
    | _ => cases he
  · have hmem : e ∈ es := by
      rcases List.mem_append.mp he with he | he
      · exact (Schedule.mem_ofStage.mp he).1
      · rcases List.mem_append.mp he with he | he
        · exact (Schedule.mem_ofStage.mp (Schedule.mem_of_mem_sortFormulas he)).1
        · exact (Schedule.mem_ofStage.mp he).1
    rw [hcreated]
    exact hsheets e hmem

end Workbook

end Gridplan
