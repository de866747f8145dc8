import Gridplan.Proofs.Outcome
import Gridplan.Proofs.Workbook.Queue

namespace Gridplan

section Gathered

variable {α κ : Type} [BEq κ] [LawfulBEq κ] {key : α → κ} {keys : List κ}

theorem gathered_perm (key : α → κ) {xs : List α} (hkeys : keys.Nodup)
    (h : ∀ x ∈ xs, key x ∈ keys) :
    (keys.flatMap fun k ↦ xs.filter (key · == k)).Perm xs := by
  induction keys generalizing xs with
  | nil => simp [List.eq_nil_iff_forall_not_mem.mpr fun x hx ↦ List.not_mem_nil (h x hx)]
  | cons k keys ih =>
    obtain ⟨hk, hkeys⟩ := List.nodup_cons.mp hkeys
    -- the keys that are left do not see the items of the first one
    let rest := xs.filter fun x ↦ !(key x == k)
    have hrest : (keys.flatMap fun l ↦ xs.filter (key · == l)) =
        keys.flatMap fun l ↦ rest.filter (key · == l) := by
      refine List.flatMap_congr fun l hl ↦ ?_
      rw [List.filter_filter]
      refine List.filter_congr fun x _ ↦ ?_
      by_cases hx : key x = l
      · have hne : l ≠ k := fun hlk ↦ hk (hlk ▸ hl)
        simp [hx, hne]
      · simp [hx]
    have hmem : ∀ x ∈ rest, key x ∈ keys := by
      intro x hx
      obtain ⟨hx, hne⟩ := List.mem_filter.mp hx
      exact (List.mem_cons.mp (h x hx)).resolve_left (by simpa using hne)
    rw [List.flatMap_cons, hrest]
    exact ((ih hkeys hmem).append_left _).trans (List.filter_append_perm _ _)

theorem filter_gathered {k : κ} (xs : List α) (hkeys : keys.Nodup) (hk : k ∈ keys) :
    (keys.flatMap fun l ↦ xs.filter (key · == l)).filter (key · == k) =
      xs.filter (key · == k) := by
  have hother : ∀ ls : List κ, k ∉ ls →
      (ls.flatMap fun l ↦ xs.filter (key · == l)).filter (key · == k) = [] := by
    intro ls hls
    refine List.filter_eq_nil_iff.mpr fun x hx hxk ↦ hls ?_
    obtain ⟨l, hl, hx⟩ := List.mem_flatMap.mp hx
    have hxl := (List.mem_filter.mp hx).2
    rw [beq_iff_eq] at hxk hxl
    exact (hxl.symm.trans hxk) ▸ hl
  obtain ⟨before, after, rfl⟩ := List.append_of_mem hk
  have hout := (List.nodup_cons.mp (List.nodup_middle.mp hkeys)).1
  have hbefore : k ∉ before := fun h ↦ hout (List.mem_append_left _ h)
  have hafter : k ∉ after := fun h ↦ hout (List.mem_append_right _ h)
  rw [List.flatMap_append, List.flatMap_cons, List.filter_append, List.filter_append,
    hother before hbefore, hother after hafter, List.filter_filter]
  simp

end Gathered

namespace Schedule

open scoped List

variable {φ : Type} {es : List (Edit φ)} {main : Option String}

theorem repeated_eq_nil {names : List String} : repeated names = [] ↔ names.Nodup := by
  induction names with
  | nil => simp [repeated]
  | cons n names ih =>
    rw [repeated, List.nodup_cons, ← ih]
    by_cases h : n ∈ names <;> simp [h]

theorem arrange_sorted {needs : String → List String} {n : Nat} {taken left : List String}
    (hneeds : ∀ s ∈ left, needs s = []) (htaken : taken.Pairwise (· < ·))
    (h : ∀ t ∈ taken, ∀ s ∈ left, t < s) : (arrange needs n taken left).Pairwise (· < ·) := by
  induction n generalizing taken left with
  | zero => exact htaken
  | succ n ih =>
    have hready : (left.filter fun s ↦ (needs s).all taken.contains) = left :=
      List.filter_eq_self.mpr fun s hs ↦ by simp [hneeds s hs]
    rw [arrange, hready]
    cases hs : least left with
    | none => exact htaken
    | some s =>
      have hleast := le_of_least hs
      have hmem := mem_of_least hs
      refine ih (fun r hr ↦ hneeds r (List.mem_of_mem_filter hr)) ?_ fun t ht r hr ↦ ?_
      · rw [List.pairwise_append]
        exact ⟨htaken, List.pairwise_singleton .., by simpa using fun t ht ↦ h t ht s hmem⟩
      · obtain ⟨hleft, hne⟩ := List.mem_filter.mp hr
        rcases List.mem_append.mp ht with ht | ht
        · exact h t ht r hleft
        · obtain rfl := List.mem_singleton.mp ht
          exact lt_of_le_of_ne (hleast r hleft) fun heq ↦ by simp [heq] at hne

theorem needsOf_eq_nil (h : ∀ e ∈ es, e.needs? = none) (s : String) : needsOf es s = [] := by
  have hnone : (es.filter (·.sheet == s)).filterMap (·.needs?) = [] :=
    List.filterMap_eq_nil_iff.mpr fun e he ↦ h e (List.mem_of_mem_filter he)
  rw [needsOf, hnone]
  rfl

theorem sheetOrder_perm (h : ∀ e ∈ es, e.needs? = none) : (sheetOrder es).Perm (sheetsOf es) := by
  obtain ⟨rest, -, hperm, hmissing⟩ := sheetOrder_spec es
  -- a sheet that is left has a need
  have hrest : rest = [] := List.eq_nil_iff_forall_not_mem.mpr fun s hs ↦ by
    simpa [needsOf_eq_nil h] using hmissing s hs
  rwa [hrest, List.append_nil] at hperm

theorem sheetOrder_sorted (h : ∀ e ∈ es, e.needs? = none) :
    (sheetOrder es).Pairwise (· < ·) := by
  rw [sheetOrder_eq_arrange]
  exact arrange_sorted (fun s _ ↦ needsOf_eq_nil h s) .nil (by simp)

theorem mem_sheetOrder (h : ∀ e ∈ es, e.needs? = none) {e : Edit φ} (he : e ∈ es) :
    e.sheet ∈ sheetOrder es :=
  (sheetOrder_perm h).mem_iff.mpr (mem_distinct.mpr (List.mem_map_of_mem he))

theorem sortFormulas_perm (h : ∀ e ∈ es, e.needs? = none) : (sortFormulas es).Perm es :=
  gathered_perm _ (nodup_sheetOrder es) fun _ he ↦ mem_sheetOrder h he

theorem filter_sortFormulas (h : ∀ e ∈ es, e.needs? = none) (s : String) :
    (sortFormulas es).filter (·.sheet == s) = es.filter (·.sheet == s) := by
  by_cases hs : s ∈ sheetOrder es
  · exact filter_gathered es (nodup_sheetOrder es) hs
  · have hnone : es.filter (·.sheet == s) = [] :=
      List.filter_eq_nil_iff.mpr fun e he hes ↦ hs (beq_iff_eq.mp hes ▸ mem_sheetOrder h he)
    have hperm := (sortFormulas_perm h).filter (·.sheet == s)
    rw [hnone] at hperm ⊢
    exact hperm.eq_nil

theorem mem_of_mem_sortFormulas {e : Edit φ} (h : e ∈ sortFormulas es) : e ∈ es := by
  obtain ⟨s, _, he⟩ := List.mem_flatMap.mp h
  exact List.mem_of_mem_filter he

@[simp] theorem mem_ofStage {s : Stage} {e : Edit φ} : e ∈ ofStage s es ↔ e ∈ es ∧ e.stage = s := by
  simp [ofStage]

theorem ofStage_append (s : Stage) (fs gs : List (Edit φ)) :
    ofStage s (fs ++ gs) = ofStage s fs ++ ofStage s gs := by
  simp [ofStage]

theorem ofStage_of_forall {s : Stage} (t : Stage) (h : ∀ e ∈ es, e.stage = s) :
    ofStage t es = if s = t then es else [] := by
  split
  · rename_i hst
    exact List.filter_eq_self.mpr fun e he ↦ by simp [h e he, hst]
  · rename_i hst
    exact List.filter_eq_nil_iff.mpr fun e he ↦ by simp [h e he, hst]

theorem ofStage_ofStage (s t : Stage) (es : List (Edit φ)) :
    ofStage t (ofStage s es) = if s = t then ofStage s es else [] :=
  ofStage_of_forall t fun _ he ↦ (mem_ofStage.mp he).2

theorem ofStage_sortFormulas (t : Stage) (es : List (Edit φ)) :
    ofStage t (sortFormulas (ofStage .formulas es)) =
      if .formulas = t then sortFormulas (ofStage .formulas es) else [] :=
  ofStage_of_forall t fun _ he ↦ (mem_ofStage.mp (mem_of_mem_sortFormulas he)).2

theorem edits_batch? (s : Stage) (es : List (Edit φ)) :
    (batch? s es).toList.flatMap (·.edits) =
      if s = .formulas then sortFormulas (ofStage s es) else ofStage s es := by
  rw [batch?]
  by_cases h : ofStage s es = []
  · simp [h, sortFormulas, sheetOrder, sheetsOf, distinct, drain]
  · simp [h]

theorem mem_of_batch? {s : Stage} {b : Batch φ} (h : batch? s es = some b) {e : Edit φ}
    (he : e ∈ b.edits) : e ∈ es ∧ e.stage = s := by
  have hedits := edits_batch? s es
  rw [h, Option.toList_some, List.flatMap_singleton] at hedits
  rw [hedits] at he
  split at he
  · exact mem_ofStage.mp (mem_of_mem_sortFormulas he)
  · exact mem_ofStage.mp he

theorem stage_of_batch? {s : Stage} {b : Batch φ} (h : batch? s es = some b) : b.stage = s := by
  rw [batch?] at h
  dsimp only at h
  split at h
  · cases h
  · rw [← Option.some.inj h]

theorem batches_ofEdits {s : Schedule φ} (h : ofEdits es main = .ok s) :
    s.batches = (batch? .create es).toList ++ ((batch? .values es).toList ++
      ((batch? .formulas es).toList ++ (batch? .names es).toList)) := by
  obtain ⟨_, _, h⟩ := Outcome.bind_eq_ok.mp h
  obtain rfl := Except.ok.inj h
  simp [Stage.all, List.filterMap_eq_flatMap_toList]

def editsAt (s : Schedule φ) (t : Stage) : List (Edit φ) :=
  (s.batches.filter (·.stage = t)).flatMap (·.edits)

theorem editsAt_ofEdits {s : Schedule φ} (h : ofEdits es main = .ok s) (t : Stage) :
    s.editsAt t = if t = .formulas then sortFormulas (ofStage t es) else ofStage t es := by
  have hfilter : ∀ u, ((batch? u es).toList.filter (·.stage = t)).flatMap (·.edits) =
      if u = t then (batch? u es).toList.flatMap (·.edits) else [] := by
    intro u
    cases hb : batch? u es with
    | none => simp
    | some b =>
      have hstage := stage_of_batch? hb
      by_cases hut : u = t <;> simp [hstage, hut]
  rw [editsAt, batches_ofEdits h]
  simp only [List.filter_append, List.flatMap_append, hfilter, edits_batch?]
  cases t <;> simp

theorem edits_ofEdits {s : Schedule φ} (h : ofEdits es main = .ok s) :
    s.edits = ofStage .create es ++ ofStage .values es ++ sortFormulas (ofStage .formulas es) ++
      ofStage .names es := by
  rw [edits, batches_ofEdits h]
  simp [edits_batch?]

theorem mem_edits_of_values {s : Schedule φ} (h : ofEdits es main = .ok s) {e : Edit φ}
    (he : e ∈ es) (hstage : e.stage = .values) : e ∈ s.edits := by
  rw [edits_ofEdits h]
  simp [he, hstage]

theorem stages_perm (es : List (Edit φ)) :
    (ofStage .create es ++ ofStage .values es ++ ofStage .formulas es ++ ofStage .names es).Perm
      es := by
  have hstages : Stage.all.Nodup := by decide
  have h := gathered_perm Edit.stage hstages fun (e : Edit φ) (_ : e ∈ es) ↦ by
    cases e <;> simp [Edit.stage, Stage.all]
  simpa [Stage.all, ofStage, beq_eq_decide] using h

theorem checkSheets_eq_ok {created : List String} {e : Edit φ} (hsheet : e.sheet ∈ created)
    (hneeds : e.needs? = none) : checkSheets created e = .ok () := by
  have hin : created.contains e.sheet = true := by simpa using hsheet
  cases e with
  | create => rfl
  | values | named => exact if_pos hin
  | formula sheet row col body needs =>
    unfold checkSheets
    dsimp only
    rw [if_pos (show created.contains sheet = true from hin)]
    split
    · rfl
    · rfl
    · next other hother =>
      -- a formula may name its own sheet, which it does not wait for
      obtain rfl : other = sheet := by
        by_contra hne
        exact hother (by simpa [Edit.needs?, hne] using hneeds)
      exact if_pos hin

theorem check_eq_ok {es : List (Edit φ)}
    (hnames : ((ofStage .create es).map (·.sheet)).Nodup)
    (hsheets : ∀ e ∈ es, checkSheets ((ofStage .create es).map (·.sheet)) e = .ok ()) :
    check es = .ok () := by
  have hstage : ∀ s, (ofStage s es).forM (checkSheets ((ofStage .create es).map (·.sheet))) =
      .ok () := by
    intro s
    have hall : ∀ e ∈ ofStage s es,
        checkSheets ((ofStage .create es).map (·.sheet)) e = .ok () :=
      fun e he ↦ hsheets e (mem_ofStage.mp he).1
    generalize ofStage s es = fs at hall
    induction fs with
    | nil => rfl
    | cons e fs ih =>
      have he := hall e (by simp)
      rw [List.forM_eq_forM] at ih ⊢
      rw [List.forM_cons, he, Outcome.ok_bind]
      exact ih fun d hd ↦ hall d (by simp [hd])
  simp [check, repeated_eq_nil.mpr hnames, hstage]

theorem forM_eq_ok {α : Type} {f : α → Outcome PUnit} {xs : List α} (h : xs.forM f = .ok ()) :
    ∀ x ∈ xs, f x = .ok () := by
  induction xs with
  | nil => exact fun x hx ↦ absurd hx List.not_mem_nil
  | cons x xs ih =>
    rw [List.forM_eq_forM] at h ih
    rw [List.forM_cons] at h
    obtain ⟨_, hx, h⟩ := Outcome.bind_eq_ok.mp h
    exact List.forall_mem_cons.mpr ⟨hx, ih h⟩

theorem checkSheets_of_check (h : check es = .ok ()) {e : Edit φ} (he : e ∈ es) :
    checkSheets ((ofStage .create es).map (·.sheet)) e = .ok () := by
  rw [check] at h
  dsimp only at h
  generalize (ofStage .create es).map (·.sheet) = created at h ⊢
  split at h
  · obtain ⟨_, h, _⟩ := Outcome.bind_eq_ok.mp h
    simp only [List.forIn_cons, List.forIn_nil, bind_assoc, pure_bind, Outcome.bind_eq_ok] at h
    obtain ⟨_, hvalues, _, hformulas, _, hnames, _⟩ := h
    cases e with
    | create => rfl
    | values => exact forM_eq_ok hvalues _ (mem_ofStage.mpr ⟨he, rfl⟩)
    | formula => exact forM_eq_ok hformulas _ (mem_ofStage.mpr ⟨he, rfl⟩)
    | named => exact forM_eq_ok hnames _ (mem_ofStage.mpr ⟨he, rfl⟩)
  · cases h

theorem nodup_of_check (h : check es = .ok ()) : ((ofStage .create es).map (·.sheet)).Nodup := by
  rw [check] at h
  dsimp only at h
  split at h
  · next hnone => exact repeated_eq_nil.mp hnone
  · cases h

theorem sheet_mem_created {s : Schedule φ} (h : ofEdits es main = .ok s) {e : Edit φ}
    (he : e ∈ es) : e.sheet ∈ (ofStage .create es).map (·.sheet) := by
  obtain ⟨_, hcheck, _⟩ := Outcome.bind_eq_ok.mp h
  have hsheet := checkSheets_of_check hcheck he
  generalize hcreated : (ofStage .create es).map (·.sheet) = created at hsheet ⊢
  cases e with
  | create =>
    rw [← hcreated]
    exact List.mem_map_of_mem (mem_ofStage.mpr ⟨he, rfl⟩)
  | _ =>
    by_contra hout
    simp_all [checkSheets, Edit.sheet]

theorem ofStage_edits {s : Schedule φ} (h : ofEdits es main = .ok s) (t : Stage) :
    ofStage t s.edits =
      if t = .formulas then sortFormulas (ofStage .formulas es) else ofStage t es := by
  rw [edits_ofEdits h]
  simp only [ofStage_append, ofStage_ofStage, ofStage_sortFormulas]
  cases t <;> simp

theorem edits_perm {s : Schedule φ} (h : ofEdits es main = .ok s)
    (hneeds : ∀ e ∈ es, e.needs? = none) : s.edits.Perm es := by
  have hsorted : (sortFormulas (ofStage .formulas es)).Perm (ofStage .formulas es) :=
    sortFormulas_perm fun e he ↦ hneeds e (mem_ofStage.mp he).1
  rw [edits_ofEdits h]
  exact ((hsorted.append_left _).append_right _).trans (stages_perm es)

end Schedule

end Gridplan
