import Gridplan.Layout.Plan
import Gridplan.Proofs.Datum.Order
import Mathlib.Data.Finset.Card

namespace Gridplan

namespace Layout

variable {β : Type} [DecidableEq β] {f : Datum → β} {xs ys seen : List Datum} {x y : Datum}

def note (seen : List Datum) (x : Datum) : List Datum := if x.isIn seen then seen else x :: seen

theorem distinctCount_eq (xs : List Datum) : distinctCount xs = (xs.foldl note []).length := rfl

theorem subset_note : seen ⊆ note seen x := by
  unfold note
  split
  · exact List.Subset.refl _
  · exact List.subset_cons_self ..

theorem exists_note (seen : List Datum) (x : Datum) :
    ∃ y ∈ note seen x, y = x ∨ y.same x = true := by
  unfold note
  split
  · next h =>
    obtain ⟨y, hy, hsame⟩ := List.any_eq_true.mp h
    exact ⟨y, hy, .inr hsame⟩
  · exact ⟨x, List.mem_cons_self, .inl rfl⟩

theorem subset_foldl_note (xs seen : List Datum) : seen ⊆ xs.foldl note seen := by
  induction xs generalizing seen with
  | nil => exact List.Subset.refl _
  | cons x xs ih => exact fun y hy ↦ ih _ (subset_note hy)

theorem exists_foldl_note (seen : List Datum) (hx : x ∈ xs) :
    ∃ y ∈ xs.foldl note seen, y = x ∨ y.same x = true := by
  induction xs generalizing seen with
  | nil => cases hx
  | cons z xs ih =>
    rcases List.mem_cons.mp hx with rfl | hx
    · obtain ⟨y, hy, h⟩ := exists_note seen x
      exact ⟨y, subset_foldl_note xs (note seen x) hy, h⟩
    · exact ih _ hx

theorem foldl_note_spec (xs : List Datum) (hseen : seen.Pairwise fun x y ↦ y.same x = false) :
    (xs.foldl note seen).Pairwise (fun x y ↦ y.same x = false) ∧
      ∀ y ∈ xs.foldl note seen, y ∈ seen ∨ y ∈ xs := by
  induction xs generalizing seen with
  | nil => exact ⟨hseen, fun y hy ↦ .inl hy⟩
  | cons x xs ih =>
    have hnote : (note seen x).Pairwise fun x y ↦ y.same x = false := by
      unfold note
      split
      · exact hseen
      · next h =>
        refine .cons (fun y hy ↦ ?_) hseen
        by_contra hsame
        exact h (List.any_eq_true.mpr ⟨y, hy, by simpa using hsame⟩)
    obtain ⟨hpairwise, hmem⟩ := ih hnote
    refine ⟨hpairwise, fun y hy ↦ ?_⟩
    rcases hmem y hy with hy | hy
    · unfold note at hy
      split at hy
      · exact .inl hy
      · rcases List.mem_cons.mp hy with rfl | hy
        · exact .inr List.mem_cons_self
        · exact .inl hy
    · exact .inr (List.mem_cons_of_mem _ hy)

theorem card_le_distinctCount (h : ∀ x ∈ xs, ∀ y ∈ xs, x.same y = true → f x = f y) :
    (xs.map f).toFinset.card ≤ distinctCount xs := by
  have hsub : (xs.map f).toFinset ⊆ ((xs.foldl note []).map f).toFinset := by
    intro b hb
    obtain ⟨x, hx, rfl⟩ := List.mem_map.mp (List.mem_toFinset.mp hb)
    obtain ⟨y, hy, hxy⟩ := exists_foldl_note [] hx
    refine List.mem_toFinset.mpr (List.mem_map.mpr ⟨y, hy, ?_⟩)
    rcases hxy with rfl | hsame
    · rfl
    · have hyxs := ((foldl_note_spec xs .nil).2 y hy).resolve_left (List.not_mem_nil)
      exact h y hyxs x hx hsame
  calc (xs.map f).toFinset.card
    _ ≤ ((xs.foldl note []).map f).toFinset.card := Finset.card_le_card hsub
    _ ≤ ((xs.foldl note []).map f).length := List.toFinset_card_le _
    _ = distinctCount xs := by rw [List.length_map, distinctCount_eq]

/-- There are at most as many different cells as they have images under a function that tells
values apart. -/
theorem distinctCount_le_card (h : ∀ x ∈ xs, ∀ y ∈ xs, f x = f y → x.same y = true) :
    distinctCount xs ≤ (xs.map f).toFinset.card := by
  obtain ⟨hpairwise, hmem⟩ := foldl_note_spec xs .nil
  have hxs : ∀ y ∈ xs.foldl note [], y ∈ xs := fun y hy ↦ (hmem y hy).resolve_left List.not_mem_nil
  have hnodup : ((xs.foldl note []).map f).Nodup := by
    refine List.pairwise_map.mpr (hpairwise.imp_of_mem fun {x y} hx hy hne heq ↦ ?_)
    rw [h y (hxs y hy) x (hxs x hx) heq.symm] at hne
    cases hne
  calc distinctCount xs
    _ = ((xs.foldl note []).map f).toFinset.card := by
      rw [List.toFinset_card_of_nodup hnodup, List.length_map, distinctCount_eq]
    _ ≤ (xs.map f).toFinset.card := by
      refine Finset.card_le_card fun b hb ↦ ?_
      obtain ⟨y, hy, rfl⟩ := List.mem_map.mp (List.mem_toFinset.mp hb)
      exact List.mem_toFinset.mpr (List.mem_map_of_mem (hxs y hy))

end Layout

section Numbers

open Decimal

variable {m n : Number} {x y : Float}

theorem Number.against_of_isNaN (hx : x.isNaN = true) (k : Int) :
    Number.compare?.against x k = none := by
  have hnone : Binary.ofFloat x = none := by
    obtain rfl : x = Float.nan := by simpa using hx
    rfl
  simp only [Number.compare?.against, hnone, hx, if_true]

theorem compare_of_isNaN (h : x.isNaN = true ∨ y.isNaN = true) :
    x.toModel.unpack.compare y.toModel.unpack = none := by
  rcases h with h | h <;> rw [isNaN_iff.mp h]
  · cases y.toModel.unpack <;> rfl
  · cases x.toModel.unpack <;> rfl

theorem Number.isProper_of_same (h : m.same n = true) :
    m.isProper = true ∧ n.isProper = true := by
  by_contra hne
  have hnone : m.compare? n = none := by
    cases m with
    | int k =>
      cases n with
      | int l => simp [Number.isProper] at hne
      | float y =>
        have hy : y.isNaN = true := by simpa [Number.isProper] using hne
        rw [Number.compare?, Number.against_of_isNaN hy, Option.map_none]
    | float x =>
      cases n with
      | int l =>
        have hx : x.isNaN = true := by simpa [Number.isProper] using hne
        exact Number.against_of_isNaN hx l
      | float y =>
        have hxy : x.isNaN = true ∨ y.isNaN = true := by
          simpa [Number.isProper, ← or_iff_not_imp_left] using hne
        simp [Number.compare?, lt_iff, beq_iff, compare_of_isNaN hxy, compare_of_isNaN hxy.symm]
  simp [Number.same, hnone] at h

end Numbers

namespace Datum

variable {a b d : Datum}

/-- Whether a datum can stand in a cell: it is not made of other data. -/
def isAtom : Datum → Bool
  | .list _ | .tuple _ | .record _ => false
  | _ => true

/-- Whether two cells hold the same value, or both hold nothing. -/
def isLike (a b : Datum) : Bool := (a.isMissing && b.isMissing) || a.same b

def value? (d : Datum) : Option ((Int ×ₗ Int) ×ₗ String) :=
  if d.isMissing then none else some d.place

def orNull (d : Datum) : Datum := if d.isMissing then .null else d

theorem isAtom_iff : d.isAtom = true ↔ d.isMissing = true ∨ d.isScalar = true := by
  cases d with
  | float x => simpa [isAtom, isMissing, isScalar] using em _
  | _ => simp [isAtom, isMissing, isScalar]

theorem isMissing_of_isScalar (h : d.isScalar = true) : d.isMissing = false := by
  cases d with
  | float x => simpa [isMissing, isScalar] using h
  | _ => simp_all [isMissing, isScalar]

theorem value?_of_isScalar (h : d.isScalar = true) : d.value? = some d.place := by
  rw [value?, isMissing_of_isScalar h, if_neg Bool.false_ne_true]

theorem isScalar_of_number? {n : Number} (h : d.number? = some n) (hn : n.isProper = true) :
    d.isScalar = true := by
  cases d <;> cases h
  · rfl
  · rfl
  · exact hn

theorem scalars_of_same (ha : a.isAtom = true) (h : a.same b = true) :
    (a = .null ∧ b = .null) ∨ (a.isScalar = true ∧ b.isScalar = true) := by
  cases hm : a.number? with
  | some m =>
    cases hn : b.number? with
    | some n =>
      obtain ⟨hm', hn'⟩ := Number.isProper_of_same (same_of_number? hm hn ▸ h)
      exact .inr ⟨isScalar_of_number? hm hm', isScalar_of_number? hn hn'⟩
    | none => cases a <;> cases hm <;> cases b <;> cases hn <;> simp [same, number?] at h
  | none =>
    cases a with
    | null => cases b <;> simp [same, number?] at h ⊢
    | text s => cases b <;> simp [same, number?, isScalar] at h ⊢
    | list | tuple | record => cases ha
    | _ => cases hm

theorem value?_of_same (ha : a.isAtom = true) (h : a.same b = true) : a.value? = b.value? := by
  rcases scalars_of_same ha h with ⟨rfl, rfl⟩ | ⟨ha, hb⟩
  · rfl
  · rw [value?_of_isScalar ha, value?_of_isScalar hb, (same_iff ha hb).mp h]

theorem value?_of_isLike (ha : a.isAtom = true) (h : a.isLike b = true) :
    b.isAtom = true ∧ a.value? = b.value? := by
  rw [isLike, Bool.or_eq_true, Bool.and_eq_true] at h
  rcases h with ⟨ha', hb⟩ | hsame
  · exact ⟨isAtom_iff.mpr (.inl hb), by rw [value?, value?, if_pos ha', if_pos hb]⟩
  · refine ⟨isAtom_iff.mpr ?_, value?_of_same ha hsame⟩
    rcases scalars_of_same ha hsame with ⟨-, rfl⟩ | ⟨-, hb⟩
    · exact .inl rfl
    · exact .inr hb

theorem same_orNull (ha : a.isAtom = true) (hb : b.isAtom = true) (h : a.value? = b.value?) :
    a.orNull.same b.orNull = true := by
  rcases isAtom_iff.mp ha with ha | ha <;> rcases isAtom_iff.mp hb with hb | hb
  · rw [orNull, orNull, if_pos ha, if_pos hb, same]
  · simp [value?, ha, isMissing_of_isScalar hb] at h
  · simp [value?, hb, isMissing_of_isScalar ha] at h
  · rw [value?_of_isScalar ha, value?_of_isScalar hb, Option.some.injEq] at h
    simp only [orNull, isMissing_of_isScalar ha, isMissing_of_isScalar hb, Bool.false_eq_true,
      if_false]
    exact (same_iff ha hb).mpr h

theorem isLike_self (h : d.isAtom = true) : d.isLike d = true := by
  rcases isAtom_iff.mp h with h | h
  · simp [isLike, h]
  · simp [isLike, (same_iff h h).mpr rfl]

theorem value?_orNull : d.orNull.value? = d.value? := by
  unfold orNull
  split
  · next h =>
    rw [value?, value?, if_pos h]
    rfl
  · rfl

end Datum

/-- The number of different values of a column. All cells that hold nothing count as one value. -/
def Column.valueCount (c : Column) : Nat := Layout.distinctCount (c.toList.map Datum.orNull)

theorem Column.valueCount_le {c : Column} {xs : List Datum} (hxs : ∀ x ∈ xs, x.isAtom = true)
    (h : ∀ d ∈ c.toList, ∃ x ∈ xs, x.isLike d = true) :
    c.valueCount ≤ Layout.distinctCount xs := by
  have hlike : ∀ d ∈ c.toList, d.isAtom = true ∧ ∃ x ∈ xs, x.value? = d.value? := by
    intro d hd
    obtain ⟨x, hx, hxd⟩ := h d hd
    obtain ⟨hatom, hvalue⟩ := Datum.value?_of_isLike (hxs x hx) hxd
    exact ⟨hatom, x, hx, hvalue⟩
  calc c.valueCount
    _ ≤ ((c.toList.map Datum.orNull).map Datum.value?).toFinset.card := by
      refine Layout.distinctCount_le_card fun x hx y hy heq ↦ ?_
      obtain ⟨d, hd, rfl⟩ := List.mem_map.mp hx
      obtain ⟨e, he, rfl⟩ := List.mem_map.mp hy
      rw [Datum.value?_orNull, Datum.value?_orNull] at heq
      exact Datum.same_orNull (hlike d hd).1 (hlike e he).1 heq
    _ ≤ (xs.map Datum.value?).toFinset.card := by
      refine Finset.card_le_card fun v hv ↦ ?_
      obtain ⟨d, hd, rfl⟩ : ∃ d ∈ c.toList, d.orNull.value? = v := by simpa using hv
      obtain ⟨x, hx, hvalue⟩ := (hlike d hd).2
      rw [Datum.value?_orNull, ← hvalue]
      exact List.mem_toFinset.mpr (List.mem_map_of_mem hx)
    _ ≤ Layout.distinctCount xs :=
      Layout.card_le_distinctCount fun x hx y _ ↦ Datum.value?_of_same (hxs x hx)

end Gridplan
