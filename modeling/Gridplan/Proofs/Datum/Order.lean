import Gridplan.Frame.Rows
import Gridplan.Proofs.Decimal.Order
import Mathlib.Data.String.Basic

namespace Gridplan

open Decimal

def Number.place : Number → Int ×ₗ Int
  | .int n => toLex (0, n * 2 ^ 1074)
  | .float x => placeOf x.toModel.unpack

def Number.isProper : Number → Bool
  | .int _ => true
  | .float x => !x.isNaN

theorem Number.against_eq {x : Float} (hx : x.isNaN = false) (n : Int) :
    Number.compare?.against x n = some (compare (Number.float x).place (Number.int n).place) := by
  unfold Number.compare?.against
  split
  · next b hb =>
    obtain ⟨hexp, hplace⟩ := placeOf_of_ofFloat hb
    rw [Binary.compareInt_eq hexp, Number.place, Number.place, hplace]
    rfl
  · next hb =>
    obtain ⟨s, hs⟩ := unpack_of_ofFloat hb hx
    have hzero : (0 : Float).toModel.unpack = .zero .positive := by rfl
    rw [if_neg (ne_true_of_eq_false hx), Number.place, Number.place, hs]
    cases s with
    | negative =>
      rw [if_pos (lt_iff.mpr (by rw [hs, hzero]; rfl))]
      rfl
    | positive =>
      rw [if_neg (fun h ↦ by rw [lt_iff, hs, hzero] at h; cases h)]
      rfl

theorem Number.compare?_eq {a b : Number} (ha : a.isProper = true) (hb : b.isProper = true) :
    a.compare? b = some (compare a.place b.place) := by
  cases a with
  | int m =>
    cases b with
    | int n => exact congrArg some (compare_mul_right (by positivity)).symm
    | float y =>
      have hy : y.isNaN = false := by simpa [Number.isProper] using hb
      rw [Number.compare?, Number.against_eq hy, Option.map_some]
      exact congrArg some Std.OrientedCmp.eq_swap.symm
  | float x =>
    have hx : x.isNaN = false := by simpa [Number.isProper] using ha
    cases b with
    | int n => exact Number.against_eq hx n
    | float y =>
      have hy : y.isNaN = false := by simpa [Number.isProper] using hb
      rw [Number.compare?]
      simp only [lt_iff, beq_iff, compare_unpack hx hy, compare_unpack hy hx, Option.some.injEq,
        compare_lt_iff_lt, compare_eq_iff_eq]
      rcases lt_trichotomy (placeOf x.toModel.unpack) (placeOf y.toModel.unpack) with h | h | h
      · rw [if_pos h, Number.place, Number.place, compare_lt_iff_lt.mpr h]
      · rw [if_neg h.not_lt, if_neg h.not_gt, if_pos h, Number.place, Number.place,
          compare_eq_iff_eq.mpr h]
      · rw [if_neg h.not_gt, if_pos h, Number.place, Number.place, compare_gt_iff_gt.mpr h]

def Datum.isScalar : Datum → Bool
  | .bool _ | .int _ | .text _ => true
  | .float x => !x.isNaN
  | _ => false

def Datum.place : Datum → (Int ×ₗ Int) ×ₗ String
  | .text s => toLex (toLex (2, 0), s)
  | d => toLex ((d.number?.map Number.place).getD (toLex (0, 0)), "")

theorem compare_toLex (p q : Int ×ₗ Int) (s t : String) :
    compare (toLex (p, s)) (toLex (q, t)) = (compare p q).then (compare s t) := rfl

theorem Number.place_lt (n : Number) : n.place < toLex (2, 0) := by
  rw [Prod.Lex.lt_iff]
  left
  cases n with
  | int n => exact two_pos
  | float x =>
    rw [Number.place]
    rcases hx : x.toModel.unpack with s | _ | _ | _
    · cases s <;> decide
    all_goals exact two_pos

namespace Datum

variable {a b d : Datum} {m n : Number}

theorem scalar_cases (h : d.isScalar = true) :
    (∃ s, d = .text s) ∨
      ∃ n, d.number? = some n ∧ n.isProper = true ∧ d.place = toLex (n.place, "") := by
  cases d with
  | text s => exact .inl ⟨s, rfl⟩
  | bool x => exact .inr ⟨_, rfl, rfl, rfl⟩
  | int x => exact .inr ⟨_, rfl, rfl, rfl⟩
  | float x => exact .inr ⟨_, rfl, h, rfl⟩
  | _ => cases h

theorem same_of_number? (ha : a.number? = some m) (hb : b.number? = some n) :
    a.same b = m.same n := by
  cases a <;> cases ha <;> cases b <;> cases hb <;> rfl

theorem cellOrder_of_number? (ha : a.number? = some m) (hb : b.number? = some n) :
    a.cellOrder b = (m.compare? n).getD .eq := by
  simp only [cellOrder, ha, hb]

theorem cellOrder_eq (ha : a.isScalar = true) (hb : b.isScalar = true) :
    a.cellOrder b = compare a.place b.place := by
  rcases scalar_cases ha with ⟨s, rfl⟩ | ⟨m, hm, hm', hma⟩ <;>
    rcases scalar_cases hb with ⟨t, rfl⟩ | ⟨n, hn, hn', hnb⟩
  · rfl
  · rw [hnb, place, compare_toLex, compare_gt_iff_gt.mpr n.place_lt]
    simp only [cellOrder, hn]
    rfl
  · rw [hma, place, compare_toLex, compare_lt_iff_lt.mpr m.place_lt]
    simp only [cellOrder, hm]
    rfl
  · rw [cellOrder_of_number? hm hn, Number.compare?_eq hm' hn', hma, hnb, compare_toLex]
    simp

theorem cellOrder_eq_lt (ha : a.isScalar = true) (hb : b.isScalar = true) :
    a.cellOrder b = .lt ↔ a.place < b.place := by
  rw [cellOrder_eq ha hb]
  exact compare_lt_iff_lt

theorem cellOrder_eq_gt (ha : a.isScalar = true) (hb : b.isScalar = true) :
    a.cellOrder b = .gt ↔ b.place < a.place := by
  rw [cellOrder_eq ha hb]
  exact compare_gt_iff_gt

theorem same_iff (ha : a.isScalar = true) (hb : b.isScalar = true) :
    a.same b = true ↔ a.place = b.place := by
  rcases scalar_cases ha with ⟨s, rfl⟩ | ⟨m, hm, hm', hma⟩ <;>
    rcases scalar_cases hb with ⟨t, rfl⟩ | ⟨n, hn, hn', hnb⟩
  · simp [same, place]
  · refine iff_of_false ?_ ?_
    · cases b <;> cases hn <;> simp [same, number?]
    · rw [hnb, place]
      intro h
      exact n.place_lt.ne (congrArg (fun p ↦ (ofLex p).1) h).symm
  · refine iff_of_false ?_ ?_
    · cases a <;> cases hm <;> simp [same, number?]
    · rw [hma, place]
      intro h
      exact m.place_lt.ne (congrArg (fun p ↦ (ofLex p).1) h)
  · rw [same_of_number? hm hn, Number.same, Number.compare?_eq hm' hn', hma, hnb]
    have heq : compare m.place n.place = .eq ↔ m.place = n.place := compare_eq_iff_eq
    simpa using heq

end Datum

end Gridplan
