import Gridplan.Proofs.Grid.Address

namespace Gridplan

namespace Grid

variable {c d : Char} {cs ds : List Char}

theorem toNat_of_isCapital (h : Range.isCapital c = true) : 65 ≤ c.toNat ∧ c.toNat ≤ 90 := by
  simpa [Range.isCapital, Char.le_def, UInt32.le_iff_toNat_le] using h

theorem letter_of_isCapital (h : Range.isCapital c = true) : letter (c.toNat - 65) = c := by
  have hc := toNat_of_isCapital h
  refine Char.toNat_inj.mp ?_
  rw [toNat_letter (by omega)]
  omega

theorem letterValue_of_isCapital (h : Range.isCapital c = true) :
    1 ≤ letterValue c ∧ letterValue c ≤ 26 := by
  have hc := toNat_of_isCapital h
  unfold letterValue
  omega

theorem exists_letterList (hne : cs ≠ []) (h : ∀ c ∈ cs, Range.isCapital c = true) :
    ∃ n, letterList n = cs := by
  induction cs using List.reverseRecOn with
  | nil => exact absurd rfl hne
  | append_singleton cs c ih =>
    have hc := h c (by simp)
    have hlt : c.toNat - 65 < 26 := by
      have := toNat_of_isCapital hc
      omega
    by_cases hcs : cs = []
    · refine ⟨c.toNat - 65, ?_⟩
      rw [letterList, if_pos hlt, letter_of_isCapital hc, hcs, List.nil_append]
    · obtain ⟨n, rfl⟩ := ih hcs fun d hd ↦ h d (List.mem_append_left _ hd)
      -- the first letters count from one, as there is no letter for nothing
      refine ⟨(n + 1) * 26 + (c.toNat - 65), ?_⟩
      have hdiv : ((n + 1) * 26 + (c.toNat - 65)) / 26 - 1 = n := by omega
      have hmod : ((n + 1) * 26 + (c.toNat - 65)) % 26 = c.toNat - 65 := by omega
      rw [letterList, if_neg (by omega), hdiv, hmod, letter_of_isCapital hc]

/-- Whether one name of a column comes before another one. -/
def NameLt (cs ds : List Char) : Prop := cs.length < ds.length ∨ cs.length = ds.length ∧ cs < ds

instance (cs ds : List Char) : Decidable (NameLt cs ds) :=
  inferInstanceAs (Decidable (_ ∨ _ ∧ _))

theorem lettersValue_cons (c : Char) (cs : List Char) :
    lettersValue (c :: cs) = letterValue c * 26 ^ cs.length + lettersValue cs := by
  induction cs using List.reverseRecOn with
  | nil => simp [lettersValue]
  | append_singleton cs d ih =>
    rw [← List.cons_append, lettersValue_concat, ih, lettersValue_concat, List.length_append,
      List.length_singleton, pow_succ]
    ring

theorem lettersValue_bounds (h : ∀ c ∈ cs, Range.isCapital c = true) :
    26 ^ cs.length - 1 ≤ 25 * lettersValue cs ∧
      25 * lettersValue cs ≤ 26 * (26 ^ cs.length - 1) := by
  induction cs using List.reverseRecOn with
  | nil => simp [lettersValue]
  | append_singleton cs c ih =>
    have ih := ih fun d hd ↦ h d (List.mem_append_left _ hd)
    have hc := letterValue_of_isCapital (h c (by simp))
    rw [lettersValue_concat, List.length_append, List.length_singleton, pow_succ]
    constructor <;> linarith

theorem lettersValue_lt_of_length (hcs : ∀ c ∈ cs, Range.isCapital c = true)
    (hds : ∀ d ∈ ds, Range.isCapital d = true) (h : cs.length < ds.length) :
    lettersValue cs < lettersValue ds := by
  have hc := (lettersValue_bounds hcs).2
  have hd := (lettersValue_bounds hds).1
  have hpow : (26 : Int) ^ (cs.length + 1) ≤ 26 ^ ds.length := pow_le_pow_right₀ (by norm_num) h
  rw [pow_succ] at hpow
  linarith

theorem lettersValue_lt_of_lt (hcs : ∀ c ∈ cs, Range.isCapital c = true)
    (hds : ∀ d ∈ ds, Range.isCapital d = true) (hlen : cs.length = ds.length) (h : cs < ds) :
    lettersValue cs < lettersValue ds := by
  induction cs generalizing ds with
  | nil =>
    cases ds with
    | nil => exact absurd h (List.lt_irrefl [])
    | cons d ds => cases hlen
  | cons c cs ih =>
    cases ds with
    | nil => cases hlen
    | cons d ds =>
      replace hlen : cs.length = ds.length := by simpa using hlen
      replace hcs := (List.forall_mem_cons.mp hcs).2
      replace hds := (List.forall_mem_cons.mp hds).2
      rw [lettersValue_cons, lettersValue_cons, hlen]
      rcases List.cons_lt_cons_iff.mp h with hlt | ⟨rfl, hlt⟩
      · -- a smaller first letter outweighs all letters behind it
        have hvalue : letterValue c + 1 ≤ letterValue d := by
          have hlt : c.toNat < d.toNat := hlt
          unfold letterValue
          omega
        have hrest := (lettersValue_bounds hcs).2
        have hrest' := (lettersValue_bounds hds).1
        rw [hlen] at hrest
        have hpow : (0 : Int) < 26 ^ ds.length := by positivity
        nlinarith
      · have := ih hcs hds hlen hlt
        linarith

theorem lettersValue_lt_iff (hcs : ∀ c ∈ cs, Range.isCapital c = true)
    (hds : ∀ d ∈ ds, Range.isCapital d = true) :
    lettersValue cs < lettersValue ds ↔ NameLt cs ds := by
  constructor
  · intro h
    rcases lt_trichotomy cs.length ds.length with hlen | hlen | hlen
    · exact .inl hlen
    · by_cases hlt : cs < ds
      · exact .inr ⟨hlen, hlt⟩
      by_cases hgt : ds < cs
      · exact absurd h (lettersValue_lt_of_lt hds hcs hlen.symm hgt).asymm
      · obtain rfl := List.le_antisymm (List.not_lt.mp hgt) (List.not_lt.mp hlt)
        exact absurd h (lt_irrefl _)
    · exact absurd h (lettersValue_lt_of_length hds hcs hlen).asymm
  · rintro (h | ⟨hlen, h⟩)
    · exact lettersValue_lt_of_length hcs hds h
    · exact lettersValue_lt_of_lt hcs hds hlen h

theorem columnOfLetters_letters (n : Nat) : columnOfLetters (letters n) = n := by
  have hplain : ∀ c ∈ letterList n, Range.isPlain c = true := fun c hc ↦ by
    simp [Range.isPlain, isCapital_of_mem_letterList hc]
  rw [columnOfLetters, letters, Range.upper_of_isPlain hplain, lettersValue_letterList,
    add_sub_cancel_right]

theorem nameLt_letterList (m n : Nat) : NameLt (letterList m) (letterList n) ↔ m < n := by
  rw [← lettersValue_lt_iff (fun _ ↦ isCapital_of_mem_letterList) fun _ ↦
    isCapital_of_mem_letterList, lettersValue_letterList, lettersValue_letterList]
  omega

/-- Every column has a name in capital letters and every such name is that of one column; the columns
come in the order of their names. -/
theorem letters_ordered_bijection :
    (∀ n, letters n ≠ "" ∧ (∀ c ∈ (letters n).toList, Range.isCapital c = true) ∧
      columnOfLetters (letters n) = n) ∧
    (∀ s, s ≠ "" → (∀ c ∈ s.toList, Range.isCapital c = true) →
      lettersOfInt (columnOfLetters s) = s) ∧
    ∀ m n, m < n ↔ NameLt (letters m).toList (letters n).toList := by
  have hchars : ∀ n, (letters n).toList = letterList n := fun _ ↦ String.toList_ofList
  refine ⟨fun n ↦ ⟨?_, ?_, columnOfLetters_letters n⟩, fun s hne hs ↦ ?_, fun m n ↦ ?_⟩
  · intro hempty
    exact letterList_ne_nil n ((hchars n).symm.trans (congrArg _ hempty))
  · rw [hchars]
    exact fun _ ↦ isCapital_of_mem_letterList
  · obtain ⟨n, hn⟩ := exists_letterList (fun hnil ↦ hne (String.toList_eq_nil_iff.mp hnil)) hs
    obtain rfl : letters n = s := String.toList_injective ((hchars n).trans hn)
    rw [columnOfLetters_letters]
    rfl
  · rw [hchars, hchars, nameLt_letterList]

/-- The length of the names changes from column 701 to column 702. -/
theorem letters_ordered_bijection_AAA :
    ("AAA" ≠ "" ∧ ∀ c ∈ "AAA".toList, Range.isCapital c = true) ∧
      lettersOfInt (columnOfLetters "AAA") = "AAA" ∧ columnOfLetters (letters 701) = 701 ∧
      NameLt (letters 701).toList (letters 702).toList := by
  have hcapital : ∀ c ∈ "AAA".toList, Range.isCapital c = true := by simp [Range.isCapital]
  obtain ⟨hletters, hnames, horder⟩ := letters_ordered_bijection
  exact ⟨⟨by decide, hcapital⟩, hnames "AAA" (by decide) hcapital, (hletters 701).2.2,
    (horder 701 702).mp (by decide)⟩

end Grid

section Ascii

variable {c : Char} {cs : List Char}

theorem toNat_toUpper (c : Char) : c.toUpper.toNat =
    if 97 ≤ c.toNat ∧ c.toNat ≤ 122 then c.toNat - 32 else c.toNat := by
  unfold Char.toUpper
  split
  · next h =>
    have hlow : 97 ≤ c.toNat := h.1
    have hhigh : c.toNat ≤ 122 := h.2
    have hstep : 'A'.val - 'a'.val = 4294967264 := rfl
    rw [if_pos ⟨hlow, hhigh⟩]
    change (c.val + ('A'.val - 'a'.val)).toNat = _
    rw [hstep, UInt32.toNat_add]
    change (c.toNat + 4294967264) % 4294967296 = _
    omega
  · next h => exact (if_neg h).symm

theorem toNat_toUpper_lt (h : c.toNat < 128) : c.toUpper.toNat < 128 := by
  rw [toNat_toUpper]
  split <;> omega

theorem toUpper_eq_colon : c.toUpper = ':' ↔ c = ':' := by
  rw [← Char.toNat_inj, ← Char.toNat_inj, toNat_toUpper]
  change _ = 58 ↔ _ = 58
  split <;> omega

theorem isBlank_toUpper (h : c.toNat < 128) : Text.isBlank c.toUpper = Text.isBlank c := by
  have hupper := toNat_toUpper c
  rw [Bool.eq_iff_iff]
  simp only [Text.isBlank, Bool.or_eq_true, Bool.and_eq_true, beq_iff_eq, decide_eq_true_eq]
  split at hupper <;> omega

theorem upper_of_ascii {s : String} (h : ∀ c ∈ s.toList, c.toNat < 128) :
    (Text.upper s).toList = s.toList.map Char.toUpper := by
  rw [Text.upper, String.toList_ofList, List.map_eq_flatMap]
  exact List.flatMap_congr fun c hc ↦ if_pos (h c hc)

theorem digitValue?_eq_none (h : c.toNat < 128) (hc : ¬c.isDigit = true) :
    Text.digitValue? c = none := by
  have hzeros : ∀ z ∈ Text.digitZeros.toList, z = 48 ∨ 128 ≤ z := by decide
  have hdigit : ¬(48 ≤ c.toNat ∧ c.toNat ≤ 57) := by
    simpa [Char.isDigit, UInt32.le_iff_toNat_le] using hc
  have hfind : Text.digitZeros.find? (fun z ↦ z ≤ c.toNat && c.toNat < z + 10) = none := by
    rw [← Array.find?_toList, List.find?_eq_none]
    intro z hz
    rcases hzeros z hz with rfl | hz
    · simp only [Bool.and_eq_true, decide_eq_true_eq]
      omega
    · simp only [Bool.and_eq_true, decide_eq_true_eq]
      omega
  rw [Text.digitValue?, hfind]
  rfl

end Ascii

namespace Text

variable {cs t : List Char}

def Padded (t cs : List Char) : Prop :=
  ∃ before after, (∀ c ∈ before ++ after, isBlank c = true) ∧ cs = before ++ t ++ after

theorem padded_trimList (cs : List Char) : Padded (trimList cs) cs := by
  let rest := cs.dropWhile isBlank
  refine ⟨cs.takeWhile isBlank, (rest.reverse.takeWhile isBlank).reverse, fun c hc ↦ ?_, ?_⟩
  · rw [List.mem_append, List.mem_reverse] at hc
    exact hc.elim List.mem_takeWhile_imp List.mem_takeWhile_imp
  · have hrest : (rest.reverse.dropWhile isBlank).reverse ++
        (rest.reverse.takeWhile isBlank).reverse = rest := by
      rw [← List.reverse_append, List.takeWhile_append_dropWhile, List.reverse_reverse]
    rw [trimList, List.append_assoc, hrest, List.takeWhile_append_dropWhile]

theorem dropWhile_append_blank {before : List Char} (hb : ∀ c ∈ before, isBlank c = true)
    (ht : ∀ c ∈ t, isBlank c = false) (hne : t ≠ []) (after : List Char) :
    (before ++ (t ++ after)).dropWhile isBlank = t ++ after := by
  rw [List.dropWhile_append_of_pos hb]
  cases t with
  | nil => exact absurd rfl hne
  | cons c t => exact List.dropWhile_cons_of_neg (by simp [ht c])

theorem trimList_eq_of_padded (ht : ∀ c ∈ t, isBlank c = false) (hne : t ≠ [])
    (h : Padded t cs) : trimList cs = t := by
  obtain ⟨before, after, hblank, rfl⟩ := h
  obtain ⟨hbefore, hafter⟩ := List.forall_mem_append.mp hblank
  have hback : (after.reverse ++ (t.reverse ++ [])).dropWhile isBlank = t.reverse ++ [] :=
    dropWhile_append_blank (fun c hc ↦ hafter c (List.mem_reverse.mp hc))
      (fun c hc ↦ ht c (List.mem_reverse.mp hc)) (by simpa using hne) []
  rw [trimList, List.append_assoc, dropWhile_append_blank hbefore ht hne, List.reverse_append]
  rw [List.append_nil] at hback
  rw [hback, List.reverse_reverse]

theorem dropWhile_map_toUpper (h : ∀ c ∈ cs, c.toNat < 128) :
    (cs.map Char.toUpper).dropWhile isBlank = (cs.dropWhile isBlank).map Char.toUpper := by
  induction cs with
  | nil => rfl
  | cons c cs ih =>
    obtain ⟨hc, hcs⟩ := List.forall_mem_cons.mp h
    rw [List.map_cons, List.dropWhile_cons, List.dropWhile_cons, isBlank_toUpper hc, ih hcs]
    split <;> rfl

theorem trimList_map_toUpper (h : ∀ c ∈ cs, c.toNat < 128) :
    trimList (cs.map Char.toUpper) = (trimList cs).map Char.toUpper := by
  have hrest : ∀ c ∈ (cs.dropWhile isBlank).reverse, c.toNat < 128 := fun c hc ↦
    h c ((List.dropWhile_sublist _).subset (List.mem_reverse.mp hc))
  rw [trimList, trimList, dropWhile_map_toUpper h, ← List.map_reverse, dropWhile_map_toUpper hrest,
    List.map_reverse]

theorem trimList_subset (cs : List Char) : trimList cs ⊆ cs := by
  intro c hc
  have hc := (List.dropWhile_sublist _).subset (List.mem_reverse.mp hc)
  exact (List.dropWhile_sublist _).subset (List.mem_reverse.mp hc)

end Text

namespace Range

open Grid

section Digits

variable {cs : List Char}

theorem digitChar_of_isDigit {c : Char} (h : c.isDigit = true) :
    c.toNat - 48 < 10 ∧ Nat.digitChar (c.toNat - 48) = c := by
  have hc : 48 ≤ c.toNat ∧ c.toNat ≤ 57 := by
    simpa [Char.isDigit, UInt32.le_iff_toNat_le] using h
  refine ⟨by omega, Char.toNat_inj.mp ?_⟩
  rw [Nat.toNat_digitChar_of_lt_ten (by omega)]
  omega

theorem toDigits_ofDigitChars_of_pos (h : ∀ c ∈ cs, c.isDigit = true) {m : Nat} (hm : 0 < m) :
    Nat.toDigits 10 (Nat.ofDigitChars 10 cs m) = Nat.toDigits 10 m ++ cs := by
  induction cs generalizing m with
  | nil => simp
  | cons c cs ih =>
    obtain ⟨hc, hcs⟩ := List.forall_mem_cons.mp h
    obtain ⟨hlt, hchar⟩ := digitChar_of_isDigit hc
    have hzero : '0'.toNat = 48 := rfl
    rw [Nat.ofDigitChars_cons, hzero, ih hcs (by omega),
      ← Nat.toDigits_append_toDigits (by decide) hm hlt, Nat.toDigits_of_lt_base hlt, hchar,
      List.append_assoc, List.singleton_append]

theorem toDigits_ofDigitChars (h : ∀ c ∈ cs, c.isDigit = true)
    (hpos : 0 < Nat.ofDigitChars 10 cs 0) :
    Nat.toDigits 10 (Nat.ofDigitChars 10 cs 0) = cs.dropWhile (· == '0') := by
  induction cs with
  | nil => simp at hpos
  | cons c cs ih =>
    obtain ⟨hc, hcs⟩ := List.forall_mem_cons.mp h
    obtain ⟨hlt, hchar⟩ := digitChar_of_isDigit hc
    have hzero : '0'.toNat = 48 := rfl
    rw [Nat.ofDigitChars_cons, hzero, Nat.mul_zero, Nat.zero_add] at hpos ⊢
    rcases eq_or_ne c '0' with rfl | hne
    · rw [List.dropWhile_cons_of_pos (by decide)]
      exact ih hcs hpos
    · have hpos' : 0 < c.toNat - 48 := by
        have hne : c.toNat ≠ 48 := fun heq ↦ hne (Char.toNat_inj.mp heq)
        have hc : 48 ≤ c.toNat ∧ c.toNat ≤ 57 := by
          simpa [Char.isDigit, UInt32.le_iff_toNat_le] using hc
        omega
      rw [List.dropWhile_cons_of_neg (by simpa using hne), toDigits_ofDigitChars_of_pos hcs hpos',
        Nat.toDigits_of_lt_base hlt, hchar, List.singleton_append]

theorem foldlM_eq_none (h : ∃ c ∈ cs, Text.digitValue? c = none) (m : Nat) :
    cs.foldlM (fun n c ↦ (Text.digitValue? c).map (n * 10 + ·)) m = none := by
  induction cs generalizing m with
  | nil => simp at h
  | cons c cs ih =>
    rw [List.foldlM_cons]
    cases hc : Text.digitValue? c with
    | none => rfl
    | some d =>
      refine ih ?_ _
      simpa [hc] using h

theorem readDigits_eq_some (hascii : ∀ c ∈ cs, c.toNat < 128) {n : Nat} :
    readDigits cs = some n ↔
      cs ≠ [] ∧ (∀ c ∈ cs, c.isDigit = true) ∧ Nat.ofDigitChars 10 cs 0 = n := by
  unfold readDigits
  split
  · next hempty => simp_all
  · next hne =>
    by_cases hdigits : ∀ c ∈ cs, c.isDigit = true
    · rw [foldlM_digitValue? hdigits]
      simp_all
    · obtain ⟨c, hc, hdigit⟩ := not_forall₂.mp hdigits
      rw [foldlM_eq_none ⟨c, hc, digitValue?_eq_none (hascii c hc) hdigit⟩]
      simp [hdigits]

end Digits

/-- A cell as it is spelled in capitals: the name of a column and the digits of a row number. -/
structure Spelling where
  name : List Char
  digits : List Char
  name_ne_nil : name ≠ []
  digits_ne_nil : digits ≠ []
  isCapital_name : ∀ c ∈ name, isCapital c = true
  isDigit_digits : ∀ c ∈ digits, c.isDigit = true

namespace Spelling

variable {v w : Spelling} {cs : List Char}

def text (w : Spelling) : List Char := w.name ++ w.digits

def number (w : Spelling) : Nat := Nat.ofDigitChars 10 w.digits 0

def column (w : Spelling) : Nat := (lettersValue w.name - 1).toNat

def tidy (w : Spelling) : List Char := w.name ++ w.digits.dropWhile (· == '0')

def tidyText (v w : Spelling) : String :=
  String.ofList (if v.tidy = w.tidy then v.tidy else v.tidy ++ ':' :: w.tidy)

/-- Whether two cells are the corners of a range: rows count from one, and the last cell is neither
above nor left of the first. -/
structure Spans (v w : Spelling) : Prop where
  first : 1 ≤ v.number
  last : 1 ≤ w.number
  rows : v.number ≤ w.number
  columns : ¬NameLt w.name v.name

/-- Whether a text in capitals is a cell, or two cells with a colon between them and blanks around
each. -/
inductive Spells : List Char → Spelling → Spelling → Prop
  | cell (w : Spelling) : Spells w.text w w
  | corners {v w : Spelling} {as bs : List Char} (ha : Text.Padded v.text as)
      (hb : Text.Padded w.text bs) : Spells (as ++ ':' :: bs) v w

theorem letterList_column (w : Spelling) : letterList w.column = w.name := by
  obtain ⟨n, hn⟩ := exists_letterList w.name_ne_nil w.isCapital_name
  have hvalue := lettersValue_letterList n
  rw [hn] at hvalue
  rw [column, hvalue, add_sub_cancel_right, Int.toNat_natCast, hn]

theorem lettersValue_name (w : Spelling) : lettersValue w.name = w.column + 1 := by
  rw [← letterList_column, lettersValue_letterList]

theorem nameLt_iff : NameLt v.name w.name ↔ v.column < w.column := by
  rw [← letterList_column v, ← letterList_column w, nameLt_letterList]

theorem tidy_eq (h : 1 ≤ w.number) : w.tidy = (cellText (w.number - 1) w.column).toList := by
  rw [toList_cellText, letterList_column, Nat.sub_add_cancel h]
  exact congrArg _ (toDigits_ofDigitChars w.isDigit_digits h).symm

theorem text_ne_nil (w : Spelling) : w.text ≠ [] :=
  List.append_ne_nil_of_left_ne_nil w.name_ne_nil _

theorem isPlain_text (w : Spelling) : ∀ c ∈ w.text, isPlain c = true := by
  intro c hc
  rcases List.mem_append.mp hc with hc | hc
  · simp [isPlain, w.isCapital_name c hc]
  · simp [isPlain, w.isDigit_digits c hc]

theorem colon_not_mem_text (w : Spelling) : ':' ∉ w.text := fun h ↦
  absurd (w.isPlain_text _ h) (by decide)

theorem padded_iff : Text.Padded w.text cs ↔ Text.trimList cs = w.text := by
  constructor
  · exact Text.trimList_eq_of_padded (fun c hc ↦ isBlank_of_isPlain (w.isPlain_text c hc))
      w.text_ne_nil
  · intro h
    rw [← h]
    exact Text.padded_trimList cs

end Spelling

theorem Spelling.takeWhile_text (w : Spelling) : w.text.takeWhile isCapital = w.name := by
  have hdigits : w.digits.takeWhile isCapital = [] := List.takeWhile_eq_nil_iff.mpr fun _ ↦
    isCapital_of_isDigit (w.isDigit_digits _ (List.getElem_mem _))
  rw [text, List.takeWhile_append_of_pos w.isCapital_name, hdigits, List.append_nil]

theorem Spelling.dropWhile_text (w : Spelling) : w.text.dropWhile isCapital = w.digits := by
  rw [text, List.dropWhile_append_of_pos w.isCapital_name]
  exact List.dropWhile_eq_self_iff.mpr fun _ ↦
    isCapital_of_isDigit (w.isDigit_digits _ (List.getElem_mem _))

theorem readCell_eq_some {s : String} (h : ∀ c ∈ s.toList, c.toNat < 128) {p : Int × Int} :
    readCell s = some p ↔ ∃ w : Spelling, s.toList.map Char.toUpper = w.text ∧
      p = ((w.number : Int) - 1, (w.column : Int)) := by
  have hascii : ∀ c ∈ s.toList.map Char.toUpper, c.toNat < 128 :=
    List.forall_mem_map.mpr fun c hc ↦ toNat_toUpper_lt (h c hc)
  rw [readCell, upper_of_ascii h]
  generalize s.toList.map Char.toUpper = cs at hascii ⊢
  constructor
  · intro hp
    split at hp
    · cases hp
    · next hname =>
      obtain ⟨n, hn, hp⟩ := Option.bind_eq_some_iff.mp hp
      have htail : ∀ c ∈ cs.dropWhile isCapital, c.toNat < 128 := fun c hc ↦
        hascii c ((List.dropWhile_sublist _).subset hc)
      obtain ⟨hne, hdigits, hvalue⟩ := (readDigits_eq_some htail).mp hn
      let w : Spelling :=
        ⟨cs.takeWhile isCapital, cs.dropWhile isCapital, by simpa using hname, hne,
          fun c hc ↦ List.mem_takeWhile_imp hc, hdigits⟩
      refine ⟨w, List.takeWhile_append_dropWhile.symm, ?_⟩
      have hcolumn : lettersValue (cs.takeWhile isCapital) = w.column + 1 := w.lettersValue_name
      rw [← Option.some.inj hp, hcolumn, add_sub_cancel_right, ← hvalue]
      rfl
  · rintro ⟨w, rfl, rfl⟩
    have hdigits : readDigits w.digits = some w.number :=
      (readDigits_eq_some fun c hc ↦ hascii c (List.mem_append_right _ hc)).mpr
        ⟨w.digits_ne_nil, w.isDigit_digits, rfl⟩
    rw [w.takeWhile_text, w.dropWhile_text, if_neg (by simp [w.name_ne_nil]), hdigits,
      w.lettersValue_name]
    simp

namespace Spelling

variable {v w : Spelling} {s : String} {r : Range}

def range (v w : Spelling) : Outcome Range :=
  ofCorners ((v.number : Int) - 1) v.column ((w.number : Int) - 1) w.column

theorem Spans.column_le (h : v.Spans w) : v.column ≤ w.column :=
  not_lt.mp (nameLt_iff.not.mp h.columns)

theorem Spans.range_eq (h : v.Spans w) : v.range w =
    .ok ⟨v.number - 1, v.column, w.number - 1, w.column, Nat.sub_le_sub_right h.rows 1,
      h.column_le⟩ := by
  have hrow : (v.number : Int) - 1 = ((v.number - 1 : Nat) : Int) := by
    have := h.first
    omega
  have hrowEnd : (w.number : Int) - 1 = ((w.number - 1 : Nat) : Int) := by
    have := h.last
    omega
  rw [range, hrow, hrowEnd, ofCorners_eq_ok]

theorem spans_of_range (h : v.range w = .ok r) : v.Spans w := by
  unfold range ofCorners at h
  split at h
  · cases h
  split at h
  · cases h
  refine ⟨by omega, by omega, by omega, ?_⟩
  rw [nameLt_iff]
  omega

theorem cellText_inj {row col row' col' : Nat} (h : cellText row col = cellText row' col') :
    row = row' ∧ col = col' := by
  have hread := congrArg readCell h
  rw [readCell_cellText, readCell_cellText, Option.some.injEq, Prod.mk.injEq] at hread
  omega

theorem Spans.toText_eq (h : v.Spans w) (hr : v.range w = .ok r) : r.toText = v.tidyText w := by
  rw [h.range_eq] at hr
  obtain rfl := Except.ok.inj hr
  have hsame : v.tidy = w.tidy ↔ v.number - 1 = w.number - 1 ∧ v.column = w.column := by
    rw [tidy_eq h.first, tidy_eq h.last]
    constructor
    · intro heq
      exact cellText_inj (String.toList_injective heq)
    · rintro ⟨hrow, hcol⟩
      rw [hrow, hcol]
  rw [toText, tidyText]
  dsimp only
  by_cases hone : v.number - 1 = w.number - 1 ∧ v.column = w.column
  · rw [if_pos hone, if_pos (hsame.mpr hone), tidy_eq h.first, String.ofList_toList]
  · rw [if_neg hone, if_neg (hsame.not.mpr hone), tidy_eq h.first, tidy_eq h.last]
    exact String.toList_injective (by simp)

theorem colon_not_mem_of_padded {cs : List Char} (h : Text.Padded w.text cs) : ':' ∉ cs := by
  obtain ⟨before, after, hblank, rfl⟩ := h
  intro hc
  have hc : ':' ∈ before ++ after ∨ ':' ∈ w.text := by
    simp only [List.mem_append] at hc ⊢
    tauto
  rcases hc with hc | hc
  · exact absurd (hblank _ hc) (by decide)
  · exact w.colon_not_mem_text hc

theorem readCell_trim {cs : List Char} (h : ∀ c ∈ cs, c.toNat < 128) {p : Int × Int} :
    readCell (Text.trim (String.ofList cs)) = some p ↔ ∃ w : Spelling,
      Text.Padded w.text (cs.map Char.toUpper) ∧ p = ((w.number : Int) - 1, (w.column : Int)) := by
  have hchars : (Text.trim (String.ofList cs)).toList = Text.trimList cs := by
    rw [Text.trim, String.toList_ofList, String.toList_ofList]
  rw [readCell_eq_some (by rw [hchars]; exact fun c hc ↦ h c (Text.trimList_subset cs hc)), hchars]
  simp only [padded_iff, Text.trimList_map_toUpper h]

theorem Spells.ofText_eq (h : ∀ c ∈ s.toList, c.toNat < 128)
    (hs : Spells (Text.upper (Text.trim s)).toList v w) : ofText s = v.range w := by
  have hascii : ∀ c ∈ (Text.trim s).toList, c.toNat < 128 := by
    rw [Text.trim, String.toList_ofList]
    exact fun c hc ↦ h c (Text.trimList_subset _ hc)
  rw [upper_of_ascii hascii] at hs
  rw [ofText]
  generalize Text.trim s = t at hascii hs ⊢
  generalize hcs : t.toList.map Char.toUpper = cs at hs
  have hcolon : ∀ as : List Char, ':' ∉ as.map Char.toUpper → ':' ∉ as := fun as has hc ↦
    has (List.mem_map.mpr ⟨':', hc, toUpper_eq_colon.mpr rfl⟩)
  cases hs with
  | cell =>
    have hne : t ≠ "" := by
      rintro rfl
      exact v.text_ne_nil hcs.symm
    rw [if_neg hne, List.splitOn_eq_singleton (hcolon _ (hcs ▸ v.colon_not_mem_text))]
    dsimp only
    rw [(readCell_eq_some hascii).mpr ⟨v, hcs, rfl⟩]
    rfl
  | @corners _ _ as bs ha hb =>
    obtain ⟨as', rest, ht, rfl, hrest⟩ := List.map_eq_append_iff.mp hcs
    obtain ⟨c, bs', rfl, hc, rfl⟩ := List.map_eq_cons_iff.mp hrest
    obtain rfl := toUpper_eq_colon.mp hc
    have hne : t ≠ "" := by
      rintro rfl
      simp at ht
    rw [ht] at hascii
    have hboth := List.forall_mem_append.mp hascii
    rw [if_neg hne, ht,
      List.splitOn_append_cons_self_of_not_mem (hcolon _ (colon_not_mem_of_padded ha)),
      List.splitOn_eq_singleton (hcolon _ (colon_not_mem_of_padded hb))]
    dsimp only
    rw [(readCell_trim hboth.1).mpr ⟨v, ha, rfl⟩,
      (readCell_trim (List.forall_mem_cons.mp hboth.2).2).mpr ⟨w, hb, rfl⟩]
    rfl

theorem exists_spells (h : ∀ c ∈ s.toList, c.toNat < 128) (hr : ofText s = .ok r) :
    ∃ v w, Spells (Text.upper (Text.trim s)).toList v w := by
  have hascii : ∀ c ∈ (Text.trim s).toList, c.toNat < 128 := by
    rw [Text.trim, String.toList_ofList]
    exact fun c hc ↦ h c (Text.trimList_subset _ hc)
  rw [upper_of_ascii hascii]
  rw [ofText] at hr
  generalize Text.trim s = t at hascii hr ⊢
  split at hr
  · cases hr
  split at hr
  · split at hr
    · next hcell =>
      obtain ⟨w, hw, -⟩ := (readCell_eq_some hascii).mp hcell
      rw [hw]
      exact ⟨w, w, .cell w⟩
    · cases hr
  · next as bs hsplit =>
    have ht : t.toList = as ++ ':' :: bs := by
      have hjoin : [':'].intercalate (t.toList.splitOn ':') = t.toList :=
        List.intercalate_splitOn _
      rw [← hjoin, hsplit]
      simp [List.intercalate]
    rw [ht] at hascii ⊢
    obtain ⟨has, hbs⟩ := List.forall_mem_append.mp hascii
    split at hr
    · next ha hb =>
      obtain ⟨v, hv, -⟩ := (readCell_trim has).mp ha
      obtain ⟨w, hw, -⟩ := (readCell_trim (List.forall_mem_cons.mp hbs).2).mp hb
      rw [List.map_append, List.map_cons, toUpper_eq_colon.mpr rfl]
      exact ⟨v, w, .corners hv hw⟩
    · cases hr
  · cases hr

end Spelling

open Spelling in
/-- A range is read back from its text. A text of ASCII characters denotes a range just when it
spells one cell or two that can be its corners, and the range is written as these cells are, without
blanks, leading zeros and a cell that is repeated. -/
theorem ofText_exact :
    (∀ r : Range, ofText r.toText = .ok r) ∧
      ∀ s : String, (∀ c ∈ s.toList, c.toNat < 128) →
        ((∃ r, ofText s = .ok r) ↔
          ∃ v w, Spells (Text.upper (Text.trim s)).toList v w ∧ v.Spans w) ∧
        ∀ r v w, ofText s = .ok r → Spells (Text.upper (Text.trim s)).toList v w →
          r.toText = v.tidyText w := by
  refine ⟨ofText_toText, fun s hs ↦ ⟨⟨?_, ?_⟩, ?_⟩⟩
  · rintro ⟨r, hr⟩
    obtain ⟨v, w, hvw⟩ := exists_spells hs hr
    rw [hvw.ofText_eq hs] at hr
    exact ⟨v, w, hvw, spans_of_range hr⟩
  · rintro ⟨v, w, hvw, hspans⟩
    exact ⟨_, (hvw.ofText_eq hs).trans hspans.range_eq⟩
  · intro r v w hr hvw
    rw [hvw.ofText_eq hs] at hr
    exact (spans_of_range hr).toText_eq hr

def seventh : Spelling where
  name := ['B']
  digits := ['0', '7']
  name_ne_nil := by decide
  digits_ne_nil := by decide
  isCapital_name := List.all_eq_true.mp (by decide)
  isDigit_digits := List.all_eq_true.mp (by decide)

def twelfth : Spelling where
  name := ['A', 'A']
  digits := ['0', '0', '1', '2']
  name_ne_nil := by decide
  digits_ne_nil := by decide
  isCapital_name := List.all_eq_true.mp (by decide)
  isDigit_digits := List.all_eq_true.mp (by decide)

theorem ofText_exact_padded :
    ∃ r, ofText " b07 :\tAa0012 " = .ok r ∧ r.toText = "B7:AA12" := by
  have hexact := ofText_exact.2 " b07 :\tAa0012 " (by simp)
  have hchars : (Text.upper (Text.trim " b07 :\tAa0012 ")).toList =
      ['B', '0', '7', ' '] ++ ':' :: ['\t', 'A', 'A', '0', '0', '1', '2'] := by decide
  have hspells : Spelling.Spells (Text.upper (Text.trim " b07 :\tAa0012 ")).toList seventh
      twelfth := by
    rw [hchars]
    exact .corners ⟨[], [' '], List.all_eq_true.mp (by decide), rfl⟩
      ⟨['\t'], [], List.all_eq_true.mp (by decide), rfl⟩
  obtain ⟨r, hr⟩ := hexact.1.mpr
    ⟨seventh, twelfth, hspells, by decide, by decide, by decide, by decide⟩
  exact ⟨r, hr, (hexact.2 r seventh twelfth hr hspells).trans (by decide)⟩

end Range

end Gridplan
