import Gridplan.Proofs.Formula.Grammar
import Gridplan.Proofs.Formula.References
import Gridplan.Proofs.Layout.Success

namespace Gridplan

namespace Formula

open Outcome (Succeeds)

variable {b : Block} {e : Expr}

theorem position_refusal {schema : List String} {n : String} {f : Fault}
    (h : position schema n = .error f) : f = .value := by
  unfold position at h
  split at h
  · cases h
  · exact (Except.error.inj h).symm

namespace Block

mutual

theorem expression_refusal (b : Block) (e : Expr) {f : Fault} (h : b.expression e = .error f) :
    f = .value := by
  cases e with
  | column n =>
    rw [expression, column, Outcome.bind_eq_error] at h
    rcases h with h | ⟨i, -, h⟩
    · exact position_refusal h
    · cases h
  | literal v => cases v <;> cases h
  | binary op l r =>
    rw [expression, Outcome.bind_eq_error] at h
    rcases h with h | ⟨t, -, h⟩
    · exact expression_refusal b l h
    rcases Outcome.bind_eq_error.mp h with h | ⟨u, -, h⟩
    · exact expression_refusal b r h
    · split at h <;> cases h
  | unary op e =>
    rw [expression, Outcome.bind_eq_error] at h
    rcases h with h | ⟨t, -, h⟩
    · exact expression_refusal b e h
    · split at h
      · cases h
      · split at h <;> cases h
  | call func args =>
    rw [expression, Outcome.bind_eq_error] at h
    rcases h with h | ⟨t, -, h⟩
    · exact expressionList_refusal b args h
    · cases h
  | verbatim t => cases h
  | raw d => cases h

theorem expressionList_refusal (b : Block) (es : List Expr) {f : Fault}
    (h : b.expressionList es = .error f) : f = .value := by
  cases es with
  | nil => cases h
  | cons e es =>
    rw [expressionList, Outcome.bind_eq_error] at h
    rcases h with h | ⟨t, -, h⟩
    · exact expression_refusal b e h
    rcases Outcome.bind_eq_error.mp h with h | ⟨u, -, h⟩
    · exact expressionList_refusal b es h
    · cases h

end

/-- The columns that an expression names are the same whether they are listed or gathered, and the
expression is refused over a block just when the block lacks one of them. -/
theorem expression_columns (b : Block) (e : Expr) :
    (∀ n, n ∈ e.columns ↔ n ∈ e.references) ∧
      (b.expression e = .error .value ↔ ¬e.references ⊆ b.schema) ∧
      (Succeeds (b.expression e) ↔ e.references ⊆ b.schema) := by
  have hsame : e.references ⊆ b.schema ↔ e.columns ⊆ b.schema :=
    forall_congr' fun n ↦ imp_congr Expr.mem_references Iff.rfl
  have hok : Succeeds (b.expression e) ↔ e.references ⊆ b.schema :=
    (succeeds_expression b e).trans hsame.symm
  refine ⟨fun n ↦ Expr.mem_references.symm, ?_, hok⟩
  rw [← hok]
  constructor
  · intro h
    simp [h]
  · intro h
    cases hx : b.expression e with
    | ok t => exact absurd ⟨t, hx⟩ h
    | error f => rw [expression_refusal b e hx]

end Block

def Sign.ofOperator? : String → Option Sign
  | "+" | "or" => some .add
  | "-" => some .sub
  | "*" | "and" => some .mul
  | "/" => some .div
  | "==" => some .eq
  | "!=" => some .ne
  | "<" => some .lt
  | "<=" => some .le
  | ">" => some .gt
  | ">=" => some .ge
  | _ => none

/-- The tree that is meant by an expression of columns, whole numbers, texts, negations and signs over
a block. -/
inductive Block.Means (b : Block) : Expr → Tree → Prop
  | column {n : String} {t : Term} (h : b.column n = .ok t) : b.Means (.column n) (.ref t.render)
  | number (n : Int) : b.Means (.literal (.int n)) (.number n)
  | text (s : String) : b.Means (.literal (.text s)) (.text s)
  | negative {e : Expr} {t : Tree} (h : b.Means e t) : b.Means (.unary "neg" e) (.negative t)
  | binary {op : String} {s : Sign} {l r : Expr} {u v : Tree} (hs : Sign.ofOperator? op = some s)
      (hl : b.Means l u) (hr : b.Means r v) : b.Means (.binary op l r) (.binary s u v)

end Formula

namespace Expr

open Formula

/-- The sign of an expression that is written without parentheses around it. -/
def bare? : Expr → Option Sign
  | .binary op _ _ => if op = "and" ∨ op = "or" then Sign.ofOperator? op else none
  | _ => none

/-- Whether operands that stand bare beside a sign bind as the sign needs it: the left one as tightly,
the right one tighter. -/
def fits (s : Sign) (l r : Expr) : Bool :=
  l.bare?.all (s.level ≤ ·.level) && r.bare?.all (s.level < ·.level)

/-- Whether all operands of the expression bind as their signs need it. A conjunction or disjunction
has its operands in parentheses. -/
def isAligned : Expr → Bool
  | .binary op l r =>
    isAligned l && isAligned r &&
      ((op == "and" || op == "or") || (Sign.ofOperator? op).all (fits · l r))
  | .unary _ e => isAligned e
  | _ => true

def texts : Expr → List String
  | .literal (.text s) => [s]
  | .binary _ l r => texts l ++ texts r
  | .unary _ e => texts e
  | _ => []

end Expr

namespace Formula

open Outcome (Succeeds)

theorem toList_operatorText {op : String} {s : Sign} (h : Sign.ofOperator? op = some s) :
    (operatorText op).toList = s.chars := by
  unfold Sign.ofOperator? at h
  split at h <;> cases h <;> decide

namespace Block

variable {b : Block} {e l r : Expr} {op : String} {s : Sign}

def chars (b : Block) (e : Expr) : List Char := (b.expression e).toOption.elim [] (·.render.toList)

theorem chars_eq {t : Term} (h : b.expression e = .ok t) : b.chars e = t.render.toList := by
  simp [chars, h, Except.toOption]

theorem chars_ofNat (n : Nat) :
    b.chars (.literal (.int (.ofNat n))) = Nat.toDigits 10 n := by
  change (toString n).toList = _
  rw [Nat.toString_eq_ofList_toDigits, String.toList_ofList]

theorem chars_negSucc (n : Nat) :
    b.chars (.literal (.int (.negSucc n))) = '-' :: Nat.toDigits 10 (n + 1) := by
  change ("-" ++ toString (n + 1)).toList = _
  rw [Nat.toString_eq_ofList_toDigits, String.toList_append, String.toList_ofList,
    String.toList_ofList]
  rfl

theorem chars_negative (h : Succeeds (b.expression e)) :
    Succeeds (b.expression (.unary "neg" e)) ∧
      b.chars (.unary "neg" e) = '-' :: ('(' :: b.chars e ++ [')']) := by
  obtain ⟨t, ht⟩ := h
  have h : b.expression (.unary "neg" e) = .ok (.negative (.group t)) := by simp [expression, ht]
  exact ⟨⟨_, h⟩, by simp [chars_eq h, chars_eq ht, Term.render]⟩

theorem chars_logical (hop : op = "and" ∨ op = "or") (hs : Sign.ofOperator? op = some s)
    (hl : Succeeds (b.expression l)) (hr : Succeeds (b.expression r)) :
    Succeeds (b.expression (.binary op l r)) ∧
      b.chars (.binary op l r) =
        ('(' :: b.chars l ++ [')']) ++ (s.chars ++ ('(' :: b.chars r ++ [')'])) := by
  obtain ⟨t, ht⟩ := hl
  obtain ⟨u, hu⟩ := hr
  have h : b.expression (.binary op l r) =
      .ok (.binary (operatorText op) (.group t) (.group u)) := by
    simp [expression, ht, hu, hop]
  refine ⟨⟨_, h⟩, ?_⟩
  simp [chars_eq h, chars_eq ht, chars_eq hu, Term.render, toList_operatorText hs]

theorem chars_binary (hop : ¬(op = "and" ∨ op = "or")) (hs : Sign.ofOperator? op = some s)
    (hl : Succeeds (b.expression l)) (hr : Succeeds (b.expression r)) :
    Succeeds (b.expression (.binary op l r)) ∧
      b.chars (.binary op l r) = '(' :: (b.chars l ++ (s.chars ++ b.chars r)) ++ [')'] := by
  obtain ⟨t, ht⟩ := hl
  obtain ⟨u, hu⟩ := hr
  have h : b.expression (.binary op l r) = .ok (.group (.binary (operatorText op) t u)) := by
    simp [expression, ht, hu, hop]
  refine ⟨⟨_, h⟩, ?_⟩
  simp [chars_eq h, chars_eq ht, chars_eq hu, Term.render, toList_operatorText hs]

theorem Means.succeeds {t : Tree} (h : b.Means e t) : Succeeds (b.expression e) := by
  induction h with
  | column h => exact ⟨_, h⟩
  | number | text => exact ⟨_, rfl⟩
  | negative _ ih => exact (chars_negative ih).1
  | @binary op s l r u v hs _ _ ihl ihr =>
    by_cases hop : op = "and" ∨ op = "or"
    · exact (chars_logical hop hs ihl ihr).1
    · exact (chars_binary hop hs ihl ihr).1

end Block

def Tree.size : Tree → Nat
  | .negative t => t.size + 1
  | .binary _ l r => l.size + r.size + 1
  | _ => 1

/-- How the symbols of an expression are grouped: as a whole, or around a sign that stands bare. The
tree has the size of the one that is meant, and is that one if the expression is aligned. -/
structure Grouped (e : Expr) (ts : List Symbol) (t meant : Tree) : Prop where
  whole : e.bare? = none → Written 3 ts t
  bare : ∀ s, e.bare? = some s → ∃ ls rs l r, ts = ls ++ .sign s :: rs ∧ t = .binary s l r ∧
    Written 3 ls l ∧ Written 3 rs r
  size : t.size = meant.size
  aligned : t = meant ↔ e.isAligned = true

namespace Grouped

variable {e l r : Expr} {ts us : List Symbol} {t u p q : Tree} {k : Nat}

theorem written (h : Grouped e ts t p) (hk : k ≤ 3) (hbare : ∀ s ∈ e.bare?, k ≤ s.level) :
    Written k ts t := by
  cases hs : e.bare? with
  | none => exact (h.whole hs).mono hk
  | some s =>
    obtain ⟨ls, rs, l, r, rfl, rfl, hl, hr⟩ := h.bare s hs
    have hlevel := s.level_le
    exact .binary s (hbare s hs) (hl.mono (by omega)) (hr.mono (by omega))

theorem parts (h : Grouped e ts t p) {P : Sign → Prop} (hnot : ¬∀ s ∈ e.bare?, P s) :
    ∃ s ls rs l r, ¬P s ∧ e.bare? = some s ∧ ts = ls ++ .sign s :: rs ∧ t = .binary s l r ∧
      Written 3 ls l ∧ Written 3 rs r := by
  push Not at hnot
  obtain ⟨s, hs, hP⟩ := hnot
  obtain ⟨ls, rs, l, r, hts, ht, hl, hr⟩ := h.bare s hs
  exact ⟨s, ls, rs, l, r, hP, hs, hts, ht, hl, hr⟩

/-- Symbols of two operands around a sign are read as the tree that is meant just when the operands
bind as the sign needs it. Otherwise the tree is grouped around a sign of an operand. -/
theorem join (hl : Grouped l ts t p) (hr : Grouped r us u q) (s : Sign) :
    ∃ w, Written 0 (ts ++ .sign s :: us) w ∧ w.size = p.size + q.size + 1 ∧
      (w = .binary s p q ↔ (l.isAligned = true ∧ r.isAligned = true) ∧ Expr.fits s l r = true) := by
  have hlevel := s.level_le
  have htp := hl.size
  have huq := hr.size
  have hfits : Expr.fits s l r = true ↔
      (∀ s' ∈ l.bare?, s.level ≤ s'.level) ∧ ∀ s' ∈ r.bare?, s.level < s'.level := by
    simp [Expr.fits, Option.all_eq_true]
  -- a tree with a part that is smaller than the operand is not the one that is meant
  have hno {s' : Sign} {w w' : Tree} (hsize : w.size < t.size ∨ w'.size < u.size)
      (hnot : ¬Expr.fits s l r = true) : (.binary s' w w' = Tree.binary s p q ↔
        (l.isAligned = true ∧ r.isAligned = true) ∧ Expr.fits s l r = true) := by
    refine iff_of_false (fun h ↦ ?_) fun h ↦ hnot h.2
    cases h
    omega
  by_cases hright : ∀ s' ∈ r.bare?, s.level < s'.level
  · have hu : Written (s.level + 1) us u := hr.written (by omega) hright
    by_cases hleft : ∀ s' ∈ l.bare?, s.level ≤ s'.level
    · refine ⟨.binary s t u, .binary s (Nat.zero_le _) (hl.written (by omega) hleft) hu, ?_, ?_⟩
      · rw [Tree.size, htp, huq]
      · rw [Tree.binary.injEq, hl.aligned, hr.aligned]
        simp [hfits.mpr ⟨hleft, hright⟩]
    · obtain ⟨s₁, ls, ms, a, m, hlt, -, rfl, rfl, ha, hm⟩ := hl.parts hleft
      have hinner : Written (s₁.level + 1) (ms ++ .sign s :: us) (.binary s m u) :=
        .binary s (by omega) (hm.mono (by omega)) hu
      refine ⟨.binary s₁ a (.binary s m u), ?_, ?_, hno (.inl ?_) fun h ↦ hleft (hfits.mp h).1⟩
      · simpa using Written.binary s₁ (Nat.zero_le _) (ha.mono (by omega)) hinner
      · simp only [Tree.size] at htp ⊢
        omega
      · simp only [Tree.size]
        omega
  · obtain ⟨s₂, ns, rs, n, c, hle, -, rfl, rfl, hn, hc⟩ := hr.parts hright
    have hnot : ¬Expr.fits s l r = true := fun h ↦ hright (hfits.mp h).2
    have hc' : Written (s₂.level + 1) rs c := hc.mono (Nat.succ_le_succ s₂.level_le)
    by_cases hleft : ∀ s' ∈ l.bare?, s.level ≤ s'.level
    · have hinner : Written s₂.level (ts ++ .sign s :: ns) (.binary s t n) :=
        .binary s (by omega) (hl.written (by omega) hleft) (hn.mono (by omega))
      refine ⟨.binary s₂ (.binary s t n) c, ?_, ?_, hno (.inr ?_) hnot⟩
      · simpa using Written.binary s₂ (Nat.zero_le _) hinner hc'
      · simp only [Tree.size] at huq ⊢
        omega
      · simp only [Tree.size]
        omega
    · obtain ⟨s₁, ls, ms, a, m, hlt, -, rfl, rfl, ha, hm⟩ := hl.parts hleft
      have hmiddle (k : Nat) (hk : k ≤ s.level) :
          Written k (ms ++ .sign s :: ns) (.binary s m n) :=
        .binary s hk (hm.mono (by omega)) (hn.mono (by omega))
      by_cases hsides : s₂.level ≤ s₁.level
      · -- both signs of the operands bind looser, and the left one is read first
        have hinner : Written s₂.level (ls ++ .sign s₁ :: (ms ++ .sign s :: ns))
            (.binary s₁ a (.binary s m n)) :=
          .binary s₁ hsides (ha.mono (by omega)) (hmiddle _ (by omega))
        refine ⟨.binary s₂ (.binary s₁ a (.binary s m n)) c, ?_, ?_, hno (.inr ?_) hnot⟩
        · simpa using Written.binary s₂ (Nat.zero_le _) hinner hc'
        · simp only [Tree.size] at htp huq ⊢
          omega
        · simp only [Tree.size]
          omega
      · have hinner : Written (s₁.level + 1) (ms ++ .sign s :: ns ++ .sign s₂ :: rs)
            (.binary s₂ (.binary s m n) c) :=
          .binary s₂ (by omega) (hmiddle _ (by omega)) hc'
        refine ⟨.binary s₁ a (.binary s₂ (.binary s m n) c), ?_, ?_, hno (.inl ?_) hnot⟩
        · simpa using Written.binary s₁ (Nat.zero_le _) (ha.mono (by omega)) hinner
        · simp only [Tree.size] at htp huq ⊢
          omega
        · simp only [Tree.size]
          omega

theorem of_written (h : Written 3 ts t) (hbare : e.bare? = none) (hsize : t.size = p.size)
    (haligned : t = p ↔ e.isAligned = true) : Grouped e ts t p :=
  ⟨fun _ ↦ h, fun s hs ↦ by simp [hbare] at hs, hsize, haligned⟩

theorem leaf (h : Written 3 ts t) (hbare : e.bare? = none) (haligned : e.isAligned = true) :
    Grouped e ts t t := of_written h hbare rfl (iff_of_true rfl haligned)

theorem negative (h : Grouped e ts t p) :
    Grouped (.unary "neg" e) (.sign .sub :: (.opening :: ts ++ [.closing])) (.negative t)
      (.negative p) := by
  have hinner : Written 0 ts t := h.written (Nat.zero_le 3) fun _ _ ↦ Nat.zero_le _
  refine of_written (.negative le_rfl (.group 3 hinner) (by simp)) rfl ?_ ?_
  · rw [Tree.size, Tree.size, h.size]
  · rw [Tree.negative.injEq, h.aligned, Expr.isAligned]

theorem logical {op : String} {s : Sign} (hop : op = "and" ∨ op = "or")
    (hs : Sign.ofOperator? op = some s) (hl : Grouped l ts t p) (hr : Grouped r us u q) :
    Grouped (.binary op l r)
      ((.opening :: ts ++ [.closing]) ++ .sign s :: (.opening :: us ++ [.closing]))
      (.binary s t u) (.binary s p q) := by
  have hleft : Written 0 ts t := hl.written (Nat.zero_le 3) fun _ _ ↦ Nat.zero_le _
  have hright : Written 0 us u := hr.written (Nat.zero_le 3) fun _ _ ↦ Nat.zero_le _
  have hbare : Expr.bare? (.binary op l r) = some s := by rw [Expr.bare?, if_pos hop, hs]
  refine ⟨fun h ↦ by simp [hbare] at h, fun s' hs' ↦ ?_, ?_, ?_⟩
  · obtain rfl := Option.some.inj (hbare.symm.trans hs')
    exact ⟨_, _, t, u, rfl, rfl, .group 3 hleft, .group 3 hright⟩
  · rw [Tree.size, Tree.size, hl.size, hr.size]
  · rw [Tree.binary.injEq, hl.aligned, hr.aligned]
    rcases hop with rfl | rfl <;> simp [Expr.isAligned]

theorem arithmetic {op : String} {s : Sign} (hop : ¬(op = "and" ∨ op = "or"))
    (hs : Sign.ofOperator? op = some s) (hl : Grouped l ts t p) (hr : Grouped r us u q) :
    ∃ w, Grouped (.binary op l r) (.opening :: (ts ++ .sign s :: us) ++ [.closing]) w
      (.binary s p q) := by
  obtain ⟨w, hw, hsize, hmeant⟩ := hl.join hr s
  have hbare : Expr.bare? (.binary op l r) = none := by rw [Expr.bare?, if_neg hop]
  refine ⟨w, of_written (.group 3 hw) hbare hsize (hmeant.trans ?_)⟩
  rw [not_or] at hop
  simp [Expr.isAligned, hop, hs]

end Grouped

theorem isWord_of_isPlain {c : Char} (h : Range.isPlain c = true) : Text.isWord c = true := by
  have hc := Range.toNat_of_isPlain h
  have hsmall : c.toNat < 128 := by omega
  have halnum : c.isAlphanum = true := by
    simp only [Range.isPlain, Range.isCapital, Bool.or_eq_true, Bool.and_eq_true,
      decide_eq_true_eq] at h
    refine Bool.or_eq_true_iff.mpr (h.imp_left fun h ↦ ?_)
    exact Bool.or_eq_true_iff.mpr (.inl (decide_eq_true h))
  simp [Text.isWord, hsmall, halnum]

namespace Block

variable {b : Block}

def cellChars (b : Block) (i : Nat) : List Char :=
  (Range.cellText (b.range.row + 1) (b.range.col + i)).toList ++
    ':' :: (Range.cellText b.range.rowEnd (b.range.col + i)).toList

theorem toList_columnAt (hpart : b.part = none) (i : Nat) :
    (b.columnAt i).render.toList = b.sheet.toList ++ '!' :: b.cellChars i := by
  simp [render_columnAt hpart, cellChars]

theorem isReference_of_mem_columnAt (hpart : b.part = none)
    (hsheet : ∀ c ∈ b.sheet.toList, Text.isWord c = true) {i : Nat} {c : Char}
    (h : c ∈ (b.columnAt i).render.toList) : isReference c = true := by
  have hcell {row col : Nat} (h : c ∈ (Range.cellText row col).toList) : isReference c = true := by
    simp [isReference, isWord_of_isPlain (Range.isPlain_of_mem_cellText h)]
  rw [toList_columnAt hpart, cellChars] at h
  simp only [List.mem_append, List.mem_cons] at h
  rcases h with h | rfl | h | rfl | h
  · simp [isReference, hsheet c h]
  · rfl
  · exact hcell h
  · rfl
  · exact hcell h

theorem column_eq_ok {n : String} {t : Term} (h : b.column n = .ok t) :
    ∃ i, position b.schema n = .ok i ∧ t = b.columnAt i := by
  obtain ⟨i, hi, ht⟩ := Outcome.bind_eq_ok.mp h
  exact ⟨i, hi, (Except.ok.inj ht).symm⟩

/-- Whether the references to columns of a block are words: the name of the sheet is one, and all rows
are whole. -/
structure IsPlain (b : Block) : Prop where
  sheet : ∀ c ∈ b.sheet.toList, Text.isWord c = true
  whole : b.part = none

theorem cuts_columnAt (hb : b.IsPlain) (i : Nat) :
    Cuts (b.columnAt i).render.toList [.ref (b.columnAt i).render] := by
  have hmark : '!' ∈ (b.columnAt i).render.toList := by
    rw [toList_columnAt hb.whole]
    simp
  have hdigits : ¬(b.columnAt i).render.toList.all Char.isDigit = true := fun h ↦ by
    simpa using List.all_eq_true.mp h _ hmark
  have hword := Cuts.word (List.ne_nil_of_mem hmark) fun c hc ↦
    isReference_of_mem_columnAt hb.whole hb.sheet hc
  rwa [if_neg hdigits, String.ofList_toList] at hword

theorem cuts_toDigits (n : Nat) : Cuts (Nat.toDigits 10 n) [.number n] := by
  have hdigit : ∀ c ∈ Nat.toDigits 10 n, c.isDigit = true := fun c hc ↦
    Range.isDigit_of_mem_toDigits hc
  have hreference : ∀ c ∈ Nat.toDigits 10 n, isReference c = true := fun c hc ↦ by
    have hplain : Range.isPlain c = true := by simp [Range.isPlain, hdigit c hc]
    simp [isReference, isWord_of_isPlain hplain]
  have hword := Cuts.word Nat.toDigits_ne_nil hreference
  rwa [if_pos (List.all_eq_true.mpr hdigit), Nat.ofDigitChars_ten_toDigits] at hword

theorem Means.grouped (hb : b.IsPlain) {e : Expr} {t : Tree} (h : b.Means e t)
    (hmarks : ∀ s ∈ e.texts, '"' ∉ s.toList) :
    ∃ ts u, Cuts (b.chars e) ts ∧ Grouped e ts u t := by
  induction h with
  | @column n t h =>
    obtain ⟨i, -, rfl⟩ := column_eq_ok h
    refine ⟨[.ref (b.columnAt i).render], _, ?_, .leaf (.ref 3 _) rfl rfl⟩
    rw [chars_eq (by rwa [expression])]
    exact cuts_columnAt hb i
  | number n =>
    cases n with
    | ofNat n => exact ⟨_, _, chars_ofNat n ▸ cuts_toDigits n, .leaf (.number 3 n) rfl rfl⟩
    | negSucc n =>
      exact ⟨_, _, chars_negSucc n ▸ (cuts_toDigits (n + 1)).minus,
        .leaf (.minus 3 (n + 1)) rfl rfl⟩
  | text s =>
    have hchars : b.chars (.literal (.text s)) = '"' :: s.toList ++ ['"'] := by
      simp [chars, expression, Except.toOption, Term.render]
    refine ⟨[.text s], _, ?_, .leaf (.text 3 s) rfl rfl⟩
    rw [hchars]
    exact .text (hmarks s (by simp [Expr.texts]))
  | @negative e t h ih =>
    obtain ⟨ts, u, hcuts, hgrouped⟩ := ih hmarks
    rw [(chars_negative h.succeeds).2]
    exact ⟨_, _, hcuts.group.minus, hgrouped.negative⟩
  | @binary op s l r u v hs hl hr ihl ihr =>
    obtain ⟨ts, t, hcuts, hgrouped⟩ := ihl fun s hs ↦ hmarks s (by simp [Expr.texts, hs])
    obtain ⟨ts', t', hcuts', hgrouped'⟩ := ihr fun s hs ↦ hmarks s (by simp [Expr.texts, hs])
    by_cases hop : op = "and" ∨ op = "or"
    · rw [(chars_logical hop hs hl.succeeds hr.succeeds).2]
      exact ⟨_, _, hcuts.group.join s hcuts'.group, .logical hop hs hgrouped hgrouped'⟩
    · rw [(chars_binary hop hs hl.succeeds hr.succeeds).2]
      obtain ⟨w, hw⟩ := hgrouped.arithmetic hop hs hgrouped'
      exact ⟨_, w, (hcuts.join s hcuts').group, hw⟩

theorem count_sign (s : Sign) : s.chars.count '"' = 0 := by cases s <;> rfl

/-- A quotation mark in a text is written once, though it takes two to mean it. -/
theorem Means.marks (hb : b.IsPlain) {e : Expr} {t : Tree} (h : b.Means e t) :
    t.marks = (b.chars e).count '"' + (e.texts.map (·.toList.count '"')).sum := by
  induction h with
  | @column n t h =>
    obtain ⟨i, -, rfl⟩ := column_eq_ok h
    have hzero : (b.columnAt i).render.toList.count '"' = 0 := List.count_eq_zero.mpr fun hc ↦
      ne_quote_of_isReference (isReference_of_mem_columnAt hb.whole hb.sheet hc) rfl
    rw [chars_eq (by rwa [expression]), hzero]
    rfl
  | number n =>
    have hzero (n : Nat) : (Nat.toDigits 10 n).count '"' = 0 := List.count_eq_zero.mpr fun hc ↦ by
      simpa using Range.isDigit_of_mem_toDigits hc
    cases n with
    | ofNat n => rw [chars_ofNat, hzero]; rfl
    | negSucc n => rw [chars_negSucc, List.count_cons_of_ne (by decide), hzero]; rfl
  | text s =>
    simp [chars, expression, Except.toOption, Term.render, Tree.marks, marksOf, Expr.texts]
    omega
  | @negative e t h ih =>
    rw [(chars_negative h.succeeds).2]
    simpa [Tree.marks, Expr.texts] using ih
  | @binary op s l r u v hs hl hr ihl ihr =>
    have hchars : (b.chars (.binary op l r)).count '"' =
        (b.chars l).count '"' + (b.chars r).count '"' := by
      by_cases hop : op = "and" ∨ op = "or"
      · rw [(chars_logical hop hs hl.succeeds hr.succeeds).2]
        simp [count_sign]
      · rw [(chars_binary hop hs hl.succeeds hr.succeeds).2]
        simp [count_sign]
    simp only [hchars, Tree.marks, Expr.texts, List.map_append, List.sum_append, ihl, ihr]
    omega

theorem Means.unmarked (hb : b.IsPlain) {e : Expr} {t : Tree} (h : b.Means e t) {f : Term}
    (hf : b.expression e = .ok f) (hr : Tree.ofText? f.render = some t) :
    ∀ s ∈ e.texts, '"' ∉ s.toList := by
  have hcount := count_of_ofText? hr
  rw [h.marks hb, chars_eq hf] at hcount
  have hsum : (e.texts.map (·.toList.count '"')).sum = 0 := by omega
  intro s hs
  exact List.count_eq_zero.mp (List.sum_eq_zero_iff.mp hsum _ (List.mem_map_of_mem hs))

theorem Means.read_iff (hb : b.IsPlain) {e : Expr} {t : Tree} (h : b.Means e t) {f : Term}
    (hf : b.expression e = .ok f) (hmarks : ∀ s ∈ e.texts, '"' ∉ s.toList) :
    Tree.ofText? f.render = some t ↔ e.isAligned = true := by
  obtain ⟨ts, u, hcuts, hgrouped⟩ := h.grouped hb hmarks
  rw [chars_eq hf] at hcuts
  have hu : Tree.ofSymbols? ts = some u := ofSymbols?_eq_some_iff.mpr
    (hgrouped.written (Nat.zero_le 3) fun _ _ ↦ Nat.zero_le _)
  rw [Tree.ofText?, hcuts.symbols?, Option.bind_some, hu, Option.some.injEq, hgrouped.aligned]

/-- An expression of columns that are there, whole numbers, texts, negations and signs has a text, and
the text is read as the tree that is meant just when no text in it holds a quotation mark and all its
operands bind as their signs need it. -/
theorem expression_read (hb : b.IsPlain) {e : Expr} {t : Tree} (h : b.Means e t) :
    ∃ f, b.expression e = .ok f ∧
      (Tree.ofText? f.render = some t ↔
        (∀ s ∈ e.texts, '"' ∉ s.toList) ∧ e.isAligned = true) := by
  obtain ⟨f, hf⟩ := h.succeeds
  refine ⟨f, hf, fun hr ↦ ?_, fun hboth ↦ (h.read_iff hb hf hboth.1).mpr hboth.2⟩
  have hmarks := h.unmarked hb hf hr
  exact ⟨hmarks, (h.read_iff hb hf hmarks).mp hr⟩

def goods : Block := { sheet := "Source_0", range := default, schema := ["a", "b"] }

theorem isPlain_goods : goods.IsPlain := ⟨List.all_eq_true.mp (by decide), rfl⟩

theorem means_a : goods.Means (.column "a") (.ref (goods.columnAt 0).render) := .column rfl

theorem means_b : goods.Means (.column "b") (.ref (goods.columnAt 1).render) := .column rfl

def compared : Expr :=
  .binary "==" (.binary "and" (.column "a") (.binary "-" (.literal (.text "it's")) (.column "b")))
    (.unary "neg" (.literal (.int (-2))))

theorem expression_read_compared : ∃ t f, goods.Means compared t ∧
    goods.expression compared = .ok f ∧ Tree.ofText? f.render = some t := by
  have h : goods.Means compared _ :=
    .binary rfl (.binary rfl means_a (.binary rfl (.text "it's") means_b)) (.negative (.number (-2)))
  obtain ⟨f, hf, hread⟩ := expression_read isPlain_goods h
  exact ⟨_, f, h, hf, hread.mpr ⟨by decide, by decide⟩⟩

def greeting : Expr := .binary "==" (.column "a") (.literal (.text "say \"hi\""))

def doubled : Expr := .binary "*" (.binary "or" (.column "a") (.column "b")) (.literal (.int 2))

/-- A quotation mark ends the text that it stands in, and a product takes an operand from a
disjunction. -/
theorem expression_misread :
    (∃ t f, goods.Means greeting t ∧ goods.expression greeting = .ok f ∧
      Tree.ofText? f.render ≠ some t) ∧
    ∃ t f, goods.Means doubled t ∧ goods.expression doubled = .ok f ∧
      Tree.ofText? f.render ≠ some t := by
  have hgreeting : goods.Means greeting _ := .binary rfl means_a (.text "say \"hi\"")
  have hdoubled : goods.Means doubled _ :=
    .binary rfl (.binary rfl means_a means_b) (.number 2)
  obtain ⟨f, hf⟩ := hgreeting.succeeds
  obtain ⟨g, hg⟩ := hdoubled.succeeds
  refine ⟨⟨_, f, hgreeting, hf, fun h ↦ ?_⟩, _, g, hdoubled, hg, fun h ↦ ?_⟩
  · exact absurd (hgreeting.unmarked isPlain_goods hf h) (by decide)
  · exact absurd ((hdoubled.read_iff isPlain_goods hg (by decide)).mp h) (by decide)

end Block

end Formula

end Gridplan
