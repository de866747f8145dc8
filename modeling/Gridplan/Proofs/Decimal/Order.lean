import Gridplan.Decimal.Binary
import Mathlib

namespace Gridplan.Decimal

open Float.Model Float.Model.UnpackedFloat

section Unpack

variable (b : BitVec Format.binary64.numBits)

theorem toNat_unpackExponent : (unpackExponent b).toNat = b.toNat / 2 ^ 52 % 2 ^ 11 := by
  simp [unpackExponent, BitVec.extractLsb_toNat, Nat.shiftRight_eq_div_pow]

theorem toNat_unpackMantissa : (unpackMantissa b).toNat = b.toNat % 2 ^ 52 := by
  simp [unpackMantissa, BitVec.extractLsb_toNat]

theorem toNat_unpackSign : (unpackSign b).toNat = b.toNat / 2 ^ 63 := by
  have hlt : b.toNat < 2 ^ 64 := b.isLt
  simp [unpackSign, BitVec.extractLsb_toNat, Nat.shiftRight_eq_div_pow]
  omega

theorem ofBitVec_unpackSign : Sign.ofBitVec (unpackSign b) =
    if 2 ^ 63 ≤ b.toNat then .negative else .positive := by
  have hsign : unpackSign b = 0#1 ↔ ¬2 ^ 63 ≤ b.toNat := by
    rw [← BitVec.toNat_inj, toNat_unpackSign]
    simp
  unfold Sign.ofBitVec
  simp only [hsign, ite_not]

def shape (s : Sign) (field fraction : Nat) : UnpackedFloat :=
  if field = 2047 then if fraction = 0 then .infinity s else .notANumber
  else if field = 0 then
    if h : fraction = 0 then .zero s else .finite s fraction (-1074) (Nat.pos_of_ne_zero h)
  else .finite s (2 ^ 52 + fraction) (field - 1075) (by positivity)

theorem unpack_eq_shape : unpack .binary64 b =
    shape (if 2 ^ 63 ≤ b.toNat then .negative else .positive) (b.toNat / 2 ^ 52 % 2 ^ 11)
      (b.toNat % 2 ^ 52) := by
  have hone : unpackExponent b = -1#_ ↔ b.toNat / 2 ^ 52 % 2 ^ 11 = 2047 := by
    rw [← BitVec.toNat_inj, toNat_unpackExponent]
    rfl
  have hzero : unpackExponent b = 0#_ ↔ b.toNat / 2 ^ 52 % 2 ^ 11 = 0 := by
    rw [← BitVec.toNat_inj, toNat_unpackExponent]
    rfl
  have hfrac : unpackMantissa b = 0#_ ↔ b.toNat % 2 ^ 52 = 0 := by
    rw [← BitVec.toNat_inj, toNat_unpackMantissa]
    rfl
  have happ : (1#1 ++ unpackMantissa b).toNat = 2 ^ 52 + b.toNat % 2 ^ 52 := by
    rw [BitVec.toNat_append, ← Nat.shiftLeft_add_eq_or_of_lt (unpackMantissa b).isLt,
      toNat_unpackMantissa]
    rfl
  unfold UnpackedFloat.unpack shape
  simp only [hone, hzero, hfrac, happ, ofBitVec_unpackSign, toNat_unpackExponent,
    toNat_unpackMantissa]
  split
  · rfl
  · split
    · next h =>
      split
      · rfl
      · simp only [h]
        rfl
    · rfl

def IsCanonical : UnpackedFloat → Prop
  | .finite _ m e _ => m < 2 ^ 53 ∧ -1074 ≤ e ∧ (e = -1074 ∨ 2 ^ 52 ≤ m)
  | _ => True

theorem isCanonical_unpack : IsCanonical (unpack .binary64 b) := by
  rw [unpack_eq_shape, shape]
  have hfrac := Nat.mod_lt b.toNat (show 0 < 2 ^ 52 by positivity)
  split
  · split <;> trivial
  · split
    · split
      · trivial
      · exact ⟨by omega, le_rfl, .inl rfl⟩
    · exact ⟨by omega, by omega, .inr (by omega)⟩

end Unpack

theorem mul_pow_lt {m n k l : Nat} (hm : m < 2 ^ 53) (hn : 2 ^ 52 ≤ n) (hkl : k < l) :
    m * 2 ^ k < n * 2 ^ l := by
  calc m * 2 ^ k < 2 ^ 53 * 2 ^ k := by gcongr
    _ = 2 ^ 52 * 2 ^ (k + 1) := by ring
    _ ≤ n * 2 ^ l := Nat.mul_le_mul hn (Nat.pow_le_pow_right (by decide) hkl)

def times (m : Nat) (e : Int) : Int := m * 2 ^ (e + 1074).toNat

theorem times_pos {m : Nat} (hm : 0 < m) (e : Int) : 0 < times m e := by
  unfold times
  positivity

theorem times_lt_of_lt {m n : Nat} (h : m < n) (e : Int) : times m e < times n e := by
  unfold times
  exact_mod_cast Nat.mul_lt_mul_of_pos_right h (by positivity)

theorem times_lt_of_exponent {m n : Nat} {d e : Int} (hm : m < 2 ^ 53) (hn : 2 ^ 52 ≤ n)
    (hd : -1074 ≤ d) (h : d < e) : times m d < times n e := by
  unfold times
  exact_mod_cast mul_pow_lt hm hn (show (d + 1074).toNat < (e + 1074).toNat by omega)

/-- Numbers with long significands are compared by their exponents first. -/
theorem compare_times {m n : Nat} {d e : Int} (hm : m < 2 ^ 53) (hn : n < 2 ^ 53) (hd : -1074 ≤ d)
    (he : -1074 ≤ e) (hm' : d = -1074 ∨ 2 ^ 52 ≤ m) (hn' : e = -1074 ∨ 2 ^ 52 ≤ n) :
    compare (times m d) (times n e) = (compare d e).then (compare m n) := by
  rcases lt_trichotomy d e with h | rfl | h
  · rw [compare_lt_iff_lt.mpr (times_lt_of_exponent hm (hn'.resolve_left (by omega)) hd h),
      compare_lt_iff_lt.mpr h, Ordering.lt_then]
  · rw [compare_eq_iff_eq.mpr (rfl : d = d), Ordering.eq_then]
    rcases lt_trichotomy m n with h | rfl | h
    · rw [compare_lt_iff_lt.mpr h, compare_lt_iff_lt.mpr (times_lt_of_lt h d)]
    · rw [compare_eq_iff_eq.mpr rfl, compare_eq_iff_eq.mpr rfl]
    · rw [compare_gt_iff_gt.mpr h, compare_gt_iff_gt.mpr (times_lt_of_lt h d)]
  · rw [compare_gt_iff_gt.mpr (times_lt_of_exponent hn (hm'.resolve_left (by omega)) he h),
      compare_gt_iff_gt.mpr h, Ordering.gt_then]

theorem compare_neg (a b : Int) : compare (-a) (-b) = (compare a b).swap := by
  rcases lt_trichotomy a b with h | rfl | h
  · rw [compare_lt_iff_lt.mpr h, compare_gt_iff_gt.mpr (neg_lt_neg h), Ordering.swap_lt]
  · rw [compare_eq_iff_eq.mpr rfl, compare_eq_iff_eq.mpr rfl, Ordering.swap_eq]
  · rw [compare_gt_iff_gt.mpr h, compare_lt_iff_lt.mpr (neg_lt_neg h), Ordering.swap_gt]

def placeOf : UnpackedFloat → Int ×ₗ Int
  | .infinity s => toLex (s.apply 1, 0)
  | .notANumber => toLex (0, 0)
  | .zero _ => toLex (0, 0)
  | .finite s m e _ => toLex (0, s.apply (times m e))

theorem compare_eq_some {u v : UnpackedFloat} (hu : IsCanonical u) (hv : IsCanonical v)
    (hu' : u ≠ .notANumber) (hv' : v ≠ .notANumber) :
    u.compare v = some (compare (placeOf u) (placeOf v)) := by
  cases u with
  | notANumber => exact absurd rfl hu'
  | infinity s =>
    cases v with
    | notANumber => exact absurd rfl hv'
    | infinity t => cases s <;> cases t <;> rfl
    | _ => cases s <;> rfl
  | zero s =>
    cases v with
    | notANumber => exact absurd rfl hv'
    | infinity t => cases t <;> rfl
    | zero t => rfl
    | finite t n e hn =>
      have hpos := times_pos hn e
      cases t with
      | positive => exact congrArg some (compare_lt_iff_lt.mpr hpos).symm
      | negative => exact congrArg some (compare_gt_iff_gt.mpr (Int.neg_neg_of_pos hpos)).symm
  | finite s m d hm =>
    have hm' := times_pos hm d
    cases v with
    | notANumber => exact absurd rfl hv'
    | infinity t => cases t <;> cases s <;> rfl
    | zero t =>
      cases s with
      | positive => exact congrArg some (compare_gt_iff_gt.mpr hm').symm
      | negative => exact congrArg some (compare_lt_iff_lt.mpr (Int.neg_neg_of_pos hm')).symm
    | finite t n e hn =>
      have hn' := times_pos hn e
      have hthen := compare_times hu.1 hv.1 hu.2.1 hv.2.1 hu.2.2 hv.2.2
      cases s with
      | positive =>
        cases t with
        | positive => exact congrArg some hthen.symm
        | negative =>
          exact congrArg some (compare_gt_iff_gt.mpr ((Int.neg_neg_of_pos hn').trans hm')).symm
      | negative =>
        cases t with
        | positive =>
          exact congrArg some (compare_lt_iff_lt.mpr ((Int.neg_neg_of_pos hm').trans hn')).symm
        | negative =>
          exact congrArg some ((compare_neg _ _).trans (congrArg Ordering.swap hthen)).symm

theorem lt_iff {x y : Float} :
    x < y ↔ x.toModel.unpack.compare y.toModel.unpack = some .lt := by
  show x.lt y = true ↔ _
  simp only [Float.lt, decide_eq_true_eq]
  show (x.toModel.unpack.compare y.toModel.unpack == some .lt) = true ↔ _
  exact beq_iff_eq

theorem beq_iff {x y : Float} :
    (x == y) = true ↔ x.toModel.unpack.compare y.toModel.unpack = some .eq := by
  show (x.toModel.unpack.compare y.toModel.unpack == some .eq) = true ↔ _
  exact beq_iff_eq

theorem isNaN_iff {x : Float} : x.isNaN = true ↔ x.toModel.unpack = .notANumber := by
  show x.toModel.unpack.isNaN = true ↔ _
  cases x.toModel.unpack <;> simp [UnpackedFloat.isNaN]

theorem unpack_ne_notANumber {x : Float} (hx : x.isNaN = false) :
    x.toModel.unpack ≠ .notANumber :=
  fun h ↦ Bool.false_ne_true (hx.symm.trans (isNaN_iff.mpr h))

theorem compare_mul_right {a b c : Int} (hc : 0 < c) : compare (a * c) (b * c) = compare a b := by
  rcases lt_trichotomy a b with h | rfl | h
  · rw [compare_lt_iff_lt.mpr h, compare_lt_iff_lt.mpr (mul_lt_mul_of_pos_right h hc)]
  · rw [compare_eq_iff_eq.mpr rfl, compare_eq_iff_eq.mpr rfl]
  · rw [compare_gt_iff_gt.mpr h, compare_gt_iff_gt.mpr (mul_lt_mul_of_pos_right h hc)]

def Binary.times (b : Binary) : Int :=
  if b.negative then -Decimal.times b.significand b.exponent
  else Decimal.times b.significand b.exponent

theorem Binary.compareInt_eq {b : Binary} (h : -1074 ≤ b.exponent) (n : Int) :
    b.compareInt n = compare b.times (n * 2 ^ 1074) := by
  obtain ⟨c, hc, hnum, hden⟩ : ∃ c : Int, 0 < c ∧
      (b.ratio.1 : Int) * c = Decimal.times b.significand b.exponent ∧
      (b.ratio.2 : Int) * c = 2 ^ 1074 := by
    unfold Binary.ratio Decimal.times
    split
    · next he =>
      refine ⟨2 ^ 1074, by positivity, ?_, by simp only [Nat.cast_one, one_mul]⟩
      have hsum : (b.exponent + 1074).toNat = b.exponent.toNat + 1074 := by omega
      rw [hsum, pow_add, ← mul_assoc]
      refine congrArg (· * _) ?_
      push_cast [Nat.pow_eq]
      rfl
    · next he =>
      refine ⟨2 ^ (b.exponent + 1074).toNat, by positivity, rfl, ?_⟩
      have hsum : (-b.exponent).toNat + (b.exponent + 1074).toNat = 1074 := by omega
      have hpow : (2 : Int) ^ (-b.exponent).toNat * 2 ^ (b.exponent + 1074).toNat = 2 ^ 1074 := by
        rw [← pow_add, hsum]
      rw [← hpow]
      push_cast [Nat.pow_eq]
      rfl
  have hsigned : b.numerator * c = b.times := by
    unfold Binary.numerator Binary.times
    split
    · rw [neg_mul, hnum]
    · exact hnum
  rw [Binary.compareInt, ← compare_mul_right hc, hsigned, mul_assoc, hden]

theorem compare_unpack {x y : Float} (hx : x.isNaN = false) (hy : y.isNaN = false) :
    x.toModel.unpack.compare y.toModel.unpack =
      some (compare (placeOf x.toModel.unpack) (placeOf y.toModel.unpack)) :=
  compare_eq_some (isCanonical_unpack _) (isCanonical_unpack _)
    (unpack_ne_notANumber hx) (unpack_ne_notANumber hy)

theorem apply_ite_sign (C : Prop) [Decidable C] (n : Int) :
    (if C then Sign.negative else .positive).apply n = if C then -n else n := by
  split <;> rfl

theorem unpack_toModel (x : Float) : x.toModel.unpack =
    shape (if 2 ^ 63 ≤ x.toBits.toNat then .negative else .positive)
      (x.toBits.toNat / 2 ^ 52 % 2 ^ 11) (x.toBits.toNat % 2 ^ 52) :=
  unpack_eq_shape _

theorem placeOf_of_ofFloat {x : Float} {b : Binary} (h : Binary.ofFloat x = some b) :
    -1074 ≤ b.exponent ∧ placeOf x.toModel.unpack = toLex (0, b.times) := by
  rw [unpack_toModel]
  unfold Binary.ofFloat at h
  simp only [Nat.pow_eq] at h
  unfold shape
  split at h
  · cases h
  · next hfinite =>
    rw [if_neg hfinite]
    split at h
    · next hzero =>
      obtain rfl := Option.some.inj h
      rw [if_pos hzero]
      refine ⟨le_rfl, ?_⟩
      split
      · next hfraction =>
        simp only [placeOf, Binary.times, times, hfraction, Nat.cast_zero, zero_mul, neg_zero,
          ite_self]
      · simp only [placeOf, Binary.times, apply_ite_sign, decide_eq_true_eq]
    · next hnormal =>
      obtain rfl := Option.some.inj h
      rw [if_neg hnormal]
      refine ⟨by simp only; omega, ?_⟩
      simp only [placeOf, Binary.times, apply_ite_sign, decide_eq_true_eq, Nat.add_comm]

theorem unpack_of_ofFloat {x : Float} (h : Binary.ofFloat x = none) (hx : x.isNaN = false) :
    ∃ s, x.toModel.unpack = .infinity s := by
  have hnan := unpack_ne_notANumber hx
  rw [unpack_toModel] at hnan ⊢
  unfold Binary.ofFloat at h
  simp only [Nat.pow_eq] at h
  unfold shape at hnan ⊢
  split at h
  · next hfield =>
    rw [if_pos hfield] at hnan ⊢
    split at hnan
    · next hfraction => exact ⟨_, if_pos hfraction⟩
    · exact absurd rfl hnan
  · split at h <;> cases h

end Gridplan.Decimal
