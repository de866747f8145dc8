import Gridplan.Workbook.Schedule
import Mathlib.Data.String.Basic
import Mathlib.Tactic

namespace Gridplan

section Distinct

variable {α : Type} [BEq α] [LawfulBEq α] {x : α}

private theorem distinct_aux (xs seen : List α) (h : seen.Nodup) :
    let all := xs.foldl (fun seen x ↦ if seen.contains x then seen else seen ++ [x]) seen
    all.Nodup ∧ ∀ y, y ∈ all ↔ y ∈ seen ∨ y ∈ xs := by
  induction xs generalizing seen with
  | nil => simpa using h
  | cons x xs ih =>
    rw [List.foldl_cons]
    by_cases hx : x ∈ seen
    · rw [if_pos (by simpa using hx)]
      obtain ⟨hn, hmem⟩ := ih seen h
      refine ⟨hn, fun y ↦ (hmem y).trans ?_⟩
      rw [List.mem_cons, ← or_assoc, or_iff_left_of_imp (b := y = x)]
      rintro rfl
      exact hx
    · rw [if_neg (by simpa using hx)]
      have hseen : (seen ++ [x]).Nodup := by
        rw [List.nodup_append]
        refine ⟨h, List.nodup_singleton x, fun a ha b hb ↦ ?_⟩
        rintro rfl
        exact hx (List.mem_singleton.mp hb ▸ ha)
      obtain ⟨hn, hmem⟩ := ih (seen ++ [x]) hseen
      exact ⟨hn, fun y ↦ (hmem y).trans (by simp [or_assoc])⟩

@[simp] theorem mem_distinct {xs : List α} : x ∈ distinct xs ↔ x ∈ xs := by
  rw [distinct, (distinct_aux xs [] List.nodup_nil).2 x]
  simp

theorem nodup_distinct (xs : List α) : (distinct xs).Nodup :=
  (distinct_aux xs [] List.nodup_nil).1

end Distinct

namespace Schedule

variable {names : List String}

theorem least_eq_none : least names = none ↔ names = [] := by
  cases names <;> simp [least]

theorem mem_of_least {n : String} (h : least names = some n) : n ∈ names := by
  cases names with
  | nil => cases h
  | cons m names =>
    obtain rfl := Option.some.inj h
    clear h
    induction names generalizing m with
    | nil => simp
    | cons k names ih =>
      rw [List.foldl_cons]
      rcases List.mem_cons.mp (ih (firstName m k)) with hk | hk
      · rw [hk, firstName]
        split <;> simp
      · exact List.mem_cons_of_mem _ (List.mem_cons_of_mem _ hk)

theorem firstName_eq (a b : String) : firstName a b = min a b := by
  unfold firstName
  split
  · next h => exact (min_eq_right h.le).symm
  · next h => exact (min_eq_left (not_lt.mp h)).symm

theorem le_of_least {n : String} (h : least names = some n) : ∀ m ∈ names, n ≤ m := by
  have hfold : ∀ (names : List String) (k : String), ∀ m ∈ k :: names,
      names.foldl firstName k ≤ m := by
    intro names
    induction names with
    | nil => simp
    | cons l names ih =>
      intro k m hm
      have hfirst := ih (firstName k l) (firstName k l) (by simp)
      rw [firstName_eq, le_min_iff] at hfirst
      rw [List.foldl_cons, firstName_eq]
      rcases List.mem_cons.mp hm with rfl | hm
      · exact hfirst.1
      · rcases List.mem_cons.mp hm with rfl | hm
        · exact hfirst.2
        · exact firstName_eq k l ▸ ih _ m (List.mem_cons_of_mem _ hm)
  cases names with
  | nil => cases h
  | cons k names =>
    obtain rfl := Option.some.inj h
    exact hfold names k

theorem least_eq_of_perm {names others : List String} (h : names.Perm others) :
    least names = least others := by
  cases hn : least names with
  | none =>
    rw [least_eq_none] at hn
    rw [hn, List.nil_perm] at h
    rw [h]
    rfl
  | some n =>
    cases hm : least others with
    | none =>
      rw [least_eq_none] at hm
      rw [hm, List.perm_nil] at h
      rw [h] at hn
      cases hn
    | some m =>
      have hnm := le_of_least hn m (h.mem_iff.mpr (mem_of_least hm))
      have hmn := le_of_least hm n (h.mem_iff.mp (mem_of_least hn))
      rw [le_antisymm hnm hmn]

/-- Takes the least sheet whose needs are all taken, again and again. -/
def arrange (needs : String → List String) : Nat → List String → List String → List String
  | 0, taken, _ => taken
  | n + 1, taken, left =>
    match least (left.filter fun s ↦ (needs s).all taken.contains) with
    | none => taken
    | some s => arrange needs n (taken ++ [s]) (left.filter (· != s))

variable {needs : String → List String} {sheets taken left queue : List String} {s t : String}

/-- Whether names stand in an order in which each comes after all that it needs. -/
inductive Ordered (needs : String → List String) : List String → Prop
  | nil : Ordered needs []
  | concat {names : List String} {s : String} (h : Ordered needs names)
      (hs : ∀ t ∈ needs s, t ∈ names) : Ordered needs (names ++ [s])

namespace Ordered

theorem closed (h : Ordered needs names) : ∀ s ∈ names, ∀ t ∈ needs s, t ∈ names := by
  induction h with
  | nil => simp
  | concat _ hs ih =>
    intro s hmem t ht
    refine List.mem_append_left _ ?_
    rcases List.mem_append.mp hmem with hmem | hmem
    · exact ih s hmem t ht
    · obtain rfl := List.mem_singleton.mp hmem
      exact hs t ht

theorem pairwise (h : Ordered needs names) (hnodup : names.Nodup) :
    names.Pairwise fun s t ↦ t ∉ needs s := by
  induction h with
  | nil => exact .nil
  | concat h hs ih =>
    rw [List.nodup_append] at hnodup
    obtain ⟨hnames, -, hout⟩ := hnodup
    rw [List.pairwise_append]
    refine ⟨ih hnames, List.pairwise_singleton .., fun s hs t ht hst ↦ ?_⟩
    exact hout t (h.closed s hs t hst) t ht rfl

end Ordered

theorem arrange_spec {n : Nat} (hlen : left.length ≤ n) (hleft : left.Nodup)
    (htaken : Ordered needs taken) :
    ∃ rest, Ordered needs (arrange needs n taken left) ∧
      (arrange needs n taken left ++ rest).Perm (taken ++ left) ∧
      ∀ s ∈ rest, ∃ t ∈ needs s, t ∉ arrange needs n taken left := by
  induction n generalizing taken left with
  | zero =>
    rw [List.length_eq_zero_iff.mp (Nat.le_zero.mp hlen)]
    exact ⟨[], htaken, .refl _, by simp⟩
  | succ n ih =>
    rw [arrange]
    cases hs : least (left.filter fun s ↦ (needs s).all taken.contains) with
    | none =>
      refine ⟨left, htaken, .refl _, fun s hs' ↦ ?_⟩
      have hnot := List.filter_eq_nil_iff.mp (least_eq_none.mp hs) s hs'
      simpa using hnot
    | some s =>
      obtain ⟨hmem, hready⟩ := List.mem_filter.mp (mem_of_least hs)
      have hrest : left.filter (· != s) = left.erase s := (hleft.erase_eq_filter s).symm
      have hshorter : (left.erase s).length ≤ n := by
        rw [List.length_erase_of_mem hmem]
        omega
      dsimp only
      rw [hrest]
      obtain ⟨rest, hord, hperm, hmissing⟩ := ih hshorter (hleft.erase s)
        (htaken.concat (s := s) (by simpa using hready))
      refine ⟨rest, hord, hperm.trans ?_, hmissing⟩
      rw [List.append_assoc]
      exact (List.perm_cons_erase hmem).symm.append_left taken

theorem arrange_eq_of_perm {others : List String} (n : Nat) (h : left.Perm others) :
    arrange needs n taken left = arrange needs n taken others := by
  induction n generalizing taken left others with
  | zero => rfl
  | succ n ih =>
    rw [arrange, arrange, least_eq_of_perm (h.filter _)]
    cases least (others.filter fun s ↦ (needs s).all taken.contains) with
    | none => rfl
    | some s => exact ih (h.filter _)

def untaken (sheets taken : List String) : List String := sheets.filter (!taken.contains ·)

@[simp] theorem mem_untaken : s ∈ untaken sheets taken ↔ s ∈ sheets ∧ s ∉ taken := by
  simp [untaken]

theorem untaken_nil : untaken sheets [] = sheets := by simp [untaken]

theorem untaken_concat :
    untaken sheets (taken ++ [s]) = (untaken sheets taken).filter (· != s) := by
  rw [untaken, untaken, List.filter_filter]
  refine List.filter_congr fun t _ ↦ ?_
  by_cases h : t = s <;> simp [h]

namespace Waiting

def whenTaken (needs : String → List String) (taken : List String) (sheet : String) : Waiting :=
  ⟨sheet, needs sheet, (untaken (needs sheet) taken).length⟩

theorem whenTaken_nil : whenTaken needs [] = start needs := by
  funext s
  rw [whenTaken, untaken_nil, start]

theorem after_whenTaken (hneeds : (needs t).Nodup) (hs : s ∉ taken) :
    (whenTaken needs taken t).after s = whenTaken needs (taken ++ [s]) t := by
  have hnodup : (untaken (needs t) taken).Nodup := hneeds.filter _
  simp only [after, whenTaken, untaken_concat, ← hnodup.erase_eq_filter]
  by_cases h : s ∈ needs t
  · have hmem : s ∈ untaken (needs t) taken := mem_untaken.mpr ⟨h, hs⟩
    simp [h, List.length_erase_of_mem hmem]
  · have hmem : s ∉ untaken (needs t) taken := fun hs ↦ h (mem_untaken.mp hs).1
    simp [h, List.erase_of_not_mem hmem]

theorem missing_whenTaken :
    ((whenTaken needs taken s).missing == 0) = (needs s).all taken.contains := by
  rw [Bool.eq_iff_iff]
  simp [whenTaken, untaken, List.filter_eq_nil_iff]

end Waiting

/-- What holds at every turn: with a sheet, all that it needs is taken, and the queue holds the
sheets that could be taken next. -/
structure Queued (needs : String → List String) (sheets taken queue : List String) : Prop where
  closed : ∀ s ∈ taken, ∀ n ∈ needs s, n ∈ taken
  ready : queue.Perm ((untaken sheets taken).filter fun s ↦ (needs s).all taken.contains)

theorem Queued.mem_iff (h : Queued needs sheets taken queue) :
    s ∈ queue ↔ s ∈ sheets ∧ s ∉ taken ∧ ∀ n ∈ needs s, n ∈ taken := by
  rw [h.ready.mem_iff]
  simp [and_assoc]

theorem Queued.step (h : Queued needs sheets taken queue) (hsheets : sheets.Nodup)
    (hs : s ∈ queue) : Queued needs sheets (taken ++ [s]) (queue.erase s ++
      sheets.filter fun t ↦ (needs t).contains s && (needs t).all (taken ++ [s]).contains) := by
  obtain ⟨_, hout, hneeds⟩ := h.mem_iff.mp hs
  have hqueue : queue.Nodup := h.ready.nodup_iff.mpr ((hsheets.filter _).filter _)
  have hfreed : ∀ t ∈ sheets, s ∈ needs t → t ∉ taken ∧ t ≠ s := by
    intro t _ hst
    refine ⟨fun ht ↦ hout (h.closed t ht s hst), ?_⟩
    rintro rfl
    exact hout (hneeds t hst)
  refine ⟨fun t ht n hn ↦ ?_, ?_⟩
  · rcases List.mem_append.mp ht with ht | ht
    · exact List.mem_append_left _ (h.closed t ht n hn)
    · obtain rfl := List.mem_singleton.mp ht
      exact List.mem_append_left _ (hneeds n hn)
  · rw [List.perm_ext_iff_of_nodup]
    · intro t
      have hmem := h.mem_iff (s := t)
      simp only [List.mem_append, hqueue.mem_erase_iff, List.mem_filter, mem_untaken,
        Bool.and_eq_true, List.contains_eq_mem, decide_eq_true_eq, List.all_eq_true, List.mem_singleton]
      grind
    · rw [List.nodup_append]
      refine ⟨hqueue.erase s, hsheets.filter _, ?_⟩
      rintro t ht _ hfree rfl
      obtain ⟨-, -, hready⟩ := h.mem_iff.mp (List.mem_of_mem_erase ht)
      obtain ⟨hst, -⟩ := Bool.and_eq_true_iff.mp (List.mem_filter.mp hfree).2
      exact hout (hready s (List.contains_iff_mem.mp hst))
    · exact (hsheets.filter _).filter _

theorem append_drain (hneeds : ∀ s ∈ sheets, (needs s).Nodup) (hsheets : sheets.Nodup) (n : Nat)
    (h : Queued needs sheets taken queue) :
    taken ++ drain n queue (sheets.map (Waiting.whenTaken needs taken)) =
      arrange needs n taken (untaken sheets taken) := by
  induction n generalizing taken queue with
  | zero => simp [drain, arrange]
  | succ n ih =>
    rw [drain, arrange, ← least_eq_of_perm h.ready]
    cases hs : least queue with
    | none => simp
    | some s =>
      have hmem := mem_of_least hs
      have hout := (h.mem_iff.mp hmem).2.1
      have hwaiting : (sheets.map (Waiting.whenTaken needs taken)).map (·.after s) =
          sheets.map (Waiting.whenTaken needs (taken ++ [s])) := by
        rw [List.map_map]
        exact List.map_congr_left fun t ht ↦ Waiting.after_whenTaken (hneeds t ht) hout
      have hfreed : ((sheets.map (Waiting.whenTaken needs (taken ++ [s]))).filter
          fun w ↦ w.needs.contains s && w.missing == 0).map (·.sheet) =
          sheets.filter fun t ↦ (needs t).contains s && (needs t).all (taken ++ [s]).contains := by
        simp only [List.filter_map, List.map_map, Function.comp_def, Waiting.missing_whenTaken]
        exact List.map_id _
      dsimp only
      rw [hwaiting, hfreed, ← untaken_concat, ← ih (h.step hsheets hmem), List.append_assoc]
      rfl

variable {φ : Type} (es : List (Edit φ))

theorem nodup_sheetsOf : (sheetsOf es).Nodup := nodup_distinct _

theorem nodup_needsOf (s : String) : (needsOf es s).Nodup := nodup_distinct _

theorem sheetOrder_eq_arrange :
    sheetOrder es = arrange (needsOf es) (sheetsOf es).length [] (sheetsOf es) := by
  have hqueue : Queued (needsOf es) (sheetsOf es) []
      ((sheetsOf es).filter fun s ↦ (needsOf es s).all ([] : List String).contains) :=
    ⟨by simp, by rw [untaken_nil]⟩
  have hrun := append_drain (fun s _ ↦ nodup_needsOf es s) (nodup_sheetsOf es)
    (sheetsOf es).length hqueue
  rw [untaken_nil, List.nil_append, Waiting.whenTaken_nil] at hrun
  rw [← hrun, sheetOrder, List.length_map]
  congr 1
  simp only [← Waiting.whenTaken_nil, List.filter_map, List.map_map, Function.comp_def,
    Waiting.missing_whenTaken]
  exact List.map_id _

theorem sheetOrder_spec : ∃ rest, Ordered (needsOf es) (sheetOrder es) ∧
    (sheetOrder es ++ rest).Perm (sheetsOf es) ∧
    ∀ s ∈ rest, ∃ t ∈ needsOf es s, t ∉ sheetOrder es := by
  rw [sheetOrder_eq_arrange]
  exact arrange_spec le_rfl (nodup_sheetsOf es) .nil

theorem nodup_sheetOrder : (sheetOrder es).Nodup := by
  obtain ⟨rest, -, hperm, -⟩ := sheetOrder_spec es
  exact (hperm.nodup_iff.mpr (nodup_sheetsOf es)).of_append_left

end Schedule

end Gridplan
