import Gridplan.Grid.Address
import Mathlib.Data.List.TakeWhile
import Mathlib.Tactic

namespace Gridplan

variable {c : Char}

namespace Grid

theorem toNat_letter {d : Nat} (h : d < 26) : (letter d).toNat = 65 + d := by
  interval_cases d <;> rfl

theorem letterValue_letter {d : Nat} (h : d < 26) : letterValue (letter d) = d + 1 := by
  rw [letterValue, toNat_letter h]
  omega

theorem isCapital_letter {d : Nat} (h : d < 26) : Range.isCapital (letter d) = true := by
  interval_cases d <;> decide

theorem isCapital_of_mem_letterList {n : Nat} (h : c ∈ letterList n) :
    Range.isCapital c = true := by
  induction n using Nat.strong_induction_on with
  | _ n ih =>
    rw [letterList] at h
    split at h
    · rename_i hn
      rw [List.mem_singleton.mp h]
      exact isCapital_letter hn
    · rcases List.mem_append.mp h with h | h
      · exact ih (n / 26 - 1) (by omega) h
      · rw [List.mem_singleton.mp h]
        exact isCapital_letter (Nat.mod_lt n (by decide))

theorem letterList_ne_nil (n : Nat) : letterList n ≠ [] := by
  rw [letterList]
  split <;> simp

theorem lettersValue_concat (cs : List Char) (c : Char) :
    lettersValue (cs ++ [c]) = lettersValue cs * 26 + letterValue c := by
  simp [lettersValue]

theorem lettersValue_letterList (n : Nat) : lettersValue (letterList n) = n + 1 := by
  induction n using Nat.strong_induction_on with
  | _ n ih =>
    rw [letterList]
    split
    · rename_i hn
      simp [lettersValue, letterValue_letter hn]
    · -- the digits run from 1 to 26, so the carry is one less than the quotient
      rw [lettersValue_concat, ih (n / 26 - 1) (by omega),
        letterValue_letter (Nat.mod_lt n (by decide))]
      omega

end Grid

namespace Range

open Grid

def isPlain (c : Char) : Bool := isCapital c || c.isDigit

theorem toNat_of_isPlain (h : isPlain c = true) :
    (65 ≤ c.toNat ∧ c.toNat ≤ 90) ∨ (48 ≤ c.toNat ∧ c.toNat ≤ 57) := by
  simp only [isPlain, isCapital, Char.isDigit, Bool.or_eq_true, Bool.and_eq_true,
    decide_eq_true_eq, Char.le_def, UInt32.le_iff_toNat_le] at h
  exact h

theorem upperChar_of_isPlain (h : isPlain c = true) : Text.upperChar c = [c] := by
  have hc := toNat_of_isPlain h
  have hsmall : ¬('a'.val ≤ c.val ∧ c.val ≤ 'z'.val) := by
    rw [UInt32.le_iff_toNat_le, UInt32.le_iff_toNat_le]
    change ¬(97 ≤ c.toNat ∧ c.toNat ≤ 122)
    omega
  have hupper : c.toUpper = c := dif_neg hsmall
  rw [Text.upperChar, if_pos (by omega), hupper]

theorem isBlank_of_isPlain (h : isPlain c = true) : Text.isBlank c = false := by
  have hc := toNat_of_isPlain h
  simp only [Text.isBlank, Bool.or_eq_false_iff, Bool.and_eq_false_iff, beq_eq_false_iff_ne,
    decide_eq_false_iff_not]
  omega

theorem upper_of_isPlain {cs : List Char} (h : ∀ c ∈ cs, isPlain c = true) :
    (Text.upper (String.ofList cs)).toList = cs := by
  rw [Text.upper, String.toList_ofList, String.toList_ofList]
  induction cs with
  | nil => rfl
  | cons c cs ih =>
    rw [List.flatMap_cons, upperChar_of_isPlain (h c (by simp)), ih fun d hd ↦ h d (by simp [hd])]
    rfl

theorem digitValue?_of_isDigit (h : c.isDigit = true) :
    Text.digitValue? c = some (c.toNat - 48) := by
  have hc : 48 ≤ c.toNat ∧ c.toNat ≤ 57 := by
    simpa [Char.isDigit, UInt32.le_iff_toNat_le] using h
  have hfind : Text.digitZeros.find? (fun z ↦ z ≤ c.toNat && c.toNat < z + 10) = some 48 := by
    rw [← Array.find?_toList]
    exact List.find?_cons_of_pos (by simp; omega)
  rw [Text.digitValue?, hfind]
  rfl

theorem foldlM_digitValue? {cs : List Char} (h : ∀ c ∈ cs, c.isDigit = true) (m : Nat) :
    cs.foldlM (fun n c ↦ (Text.digitValue? c).map (n * 10 + ·)) m =
      some (Nat.ofDigitChars 10 cs m) := by
  induction cs generalizing m with
  | nil => simp
  | cons c cs ih =>
    rw [List.foldlM_cons, digitValue?_of_isDigit (h c (by simp)), Nat.ofDigitChars_cons,
      Nat.mul_comm 10 m]
    exact ih (fun d hd ↦ h d (by simp [hd])) _

theorem readDigits_toDigits (n : Nat) : readDigits (Nat.toDigits 10 n) = some n := by
  have hdigits : ∀ c ∈ Nat.toDigits 10 n, c.isDigit = true := fun c hc ↦
    Nat.isDigit_of_mem_toDigits (by decide) (by decide) hc
  rw [readDigits, if_neg (by simp [Nat.toDigits_ne_nil]), foldlM_digitValue? hdigits,
    Nat.ofDigitChars_ten_toDigits]

theorem toList_cellText (row col : Nat) :
    (cellText row col).toList = letterList col ++ Nat.toDigits 10 (row + 1) := by
  simp [cellText, letters]

theorem isDigit_of_mem_toDigits {n : Nat} (h : c ∈ Nat.toDigits 10 n) : c.isDigit = true :=
  Nat.isDigit_of_mem_toDigits (by decide) (by decide) h

theorem isPlain_of_mem_cellText {row col : Nat} (h : c ∈ (cellText row col).toList) :
    isPlain c = true := by
  rw [toList_cellText] at h
  rcases List.mem_append.mp h with h | h
  · simp [isPlain, isCapital_of_mem_letterList h]
  · simp [isPlain, isDigit_of_mem_toDigits h]

theorem isCapital_of_isDigit (h : c.isDigit = true) : ¬isCapital c = true := by
  simp only [isCapital, Char.isDigit, Bool.and_eq_true, decide_eq_true_eq, Char.le_def,
    UInt32.le_iff_toNat_le] at h ⊢
  have hnine : ('9' : Char).val.toNat < ('A' : Char).val.toNat := by decide
  have hdigit : c.val.toNat ≤ ('9' : Char).val.toNat := h.2
  omega

theorem readCell_cellText (row col : Nat) :
    readCell (cellText row col) = some ((row : Int), (col : Int)) := by
  have hchars : (Text.upper (cellText row col)).toList =
      letterList col ++ Nat.toDigits 10 (row + 1) := by
    have h := upper_of_isPlain fun c (hc : c ∈ (cellText row col).toList) ↦
      isPlain_of_mem_cellText hc
    rwa [String.ofList_toList, toList_cellText] at h
  have hcapital : ∀ c ∈ letterList col, isCapital c = true := fun c hc ↦
    isCapital_of_mem_letterList hc
  -- the number begins where the letters end
  have htake : (Nat.toDigits 10 (row + 1)).takeWhile isCapital = [] :=
    List.takeWhile_eq_nil_iff.mpr fun _ ↦
      isCapital_of_isDigit (isDigit_of_mem_toDigits (List.getElem_mem _))
  have hdrop : (Nat.toDigits 10 (row + 1)).dropWhile isCapital = Nat.toDigits 10 (row + 1) :=
    List.dropWhile_eq_self_iff.mpr fun _ ↦
      isCapital_of_isDigit (isDigit_of_mem_toDigits (List.getElem_mem _))
  rw [readCell, hchars, List.takeWhile_append_of_pos hcapital,
    List.dropWhile_append_of_pos hcapital, htake, hdrop, List.append_nil,
    if_neg (by simp [letterList_ne_nil]), readDigits_toDigits, lettersValue_letterList]
  simp

theorem trim_eq_self {s : String} (h : ∀ c ∈ s.toList, Text.isBlank c = false) :
    Text.trim s = s := by
  have hkeep : ∀ cs : List Char, (∀ c ∈ cs, Text.isBlank c = false) →
      cs.dropWhile Text.isBlank = cs := fun cs hcs ↦
    List.dropWhile_eq_self_iff.mpr fun _ ↦ by simp [hcs _ (List.getElem_mem _)]
  rw [Text.trim, Text.trimList, hkeep _ h, hkeep _ fun c hc ↦ h c (List.mem_reverse.mp hc),
    List.reverse_reverse, String.ofList_toList]

theorem trim_cellText (row col : Nat) : Text.trim (cellText row col) = cellText row col :=
  trim_eq_self fun _ hc ↦ isBlank_of_isPlain (isPlain_of_mem_cellText hc)

theorem colon_not_mem_cellText (row col : Nat) : ':' ∉ (cellText row col).toList := by
  intro h
  exact absurd (isPlain_of_mem_cellText h) (by decide)

theorem cellText_ne_empty (row col : Nat) : cellText row col ≠ "" := by
  intro h
  have hnil := congrArg String.toList h
  rw [toList_cellText] at hnil
  exact letterList_ne_nil col (List.append_eq_nil_iff.mp hnil).1

theorem ofText_cellText (row col : Nat) :
    ofText (cellText row col) = ofCorners row col row col := by
  rw [ofText, trim_cellText, if_neg (cellText_ne_empty row col),
    List.splitOn_eq_singleton (colon_not_mem_cellText row col)]
  dsimp only
  rw [readCell_cellText]

theorem ofText_corners (row col rowEnd colEnd : Nat) :
    ofText (cellText row col ++ ":" ++ cellText rowEnd colEnd) =
      ofCorners row col rowEnd colEnd := by
  have hchars : (cellText row col ++ ":" ++ cellText rowEnd colEnd).toList =
      (cellText row col).toList ++ ':' :: (cellText rowEnd colEnd).toList := by
    simp
  have htrim : Text.trim (cellText row col ++ ":" ++ cellText rowEnd colEnd) =
      cellText row col ++ ":" ++ cellText rowEnd colEnd := by
    refine trim_eq_self fun c hc ↦ ?_
    rw [hchars] at hc
    rcases List.mem_append.mp hc with hc | hc
    · exact isBlank_of_isPlain (isPlain_of_mem_cellText hc)
    · rcases List.mem_cons.mp hc with rfl | hc
      · decide
      · exact isBlank_of_isPlain (isPlain_of_mem_cellText hc)
  have hne : cellText row col ++ ":" ++ cellText rowEnd colEnd ≠ "" := by
    intro h
    have hnil := congrArg String.toList h
    rw [hchars] at hnil
    simp at hnil
  rw [ofText, htrim, if_neg hne, hchars,
    List.splitOn_append_cons_self_of_not_mem (colon_not_mem_cellText row col),
    List.splitOn_eq_singleton (colon_not_mem_cellText rowEnd colEnd)]
  dsimp only
  rw [String.ofList_toList, String.ofList_toList, trim_cellText, trim_cellText, readCell_cellText,
    readCell_cellText]

theorem ofCorners_eq_ok {row col rowEnd colEnd : Nat} (hrow : row ≤ rowEnd) (hcol : col ≤ colEnd) :
    ofCorners row col rowEnd colEnd =
      .ok ⟨row, col, rowEnd, colEnd, hrow, hcol⟩ := by
  rw [ofCorners, dif_neg (by omega), dif_neg (by omega)]
  rfl

theorem ofText_toText (r : Range) : ofText r.toText = .ok r := by
  obtain ⟨row, col, rowEnd, colEnd, hrow, hcol⟩ := r
  unfold toText
  dsimp only
  split
  · next h =>
    obtain ⟨rfl, rfl⟩ := h
    rw [ofText_cellText, ofCorners_eq_ok le_rfl le_rfl]
  · rw [ofText_corners, ofCorners_eq_ok hrow hcol]

end Range

end Gridplan
