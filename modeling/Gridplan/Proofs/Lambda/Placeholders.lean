import Gridplan.Lambda.Template
import Gridplan.Proofs.Outcome

namespace Gridplan

variable {cs : List Char} {xs ys : List Char}

namespace Text

theorem replaceList_skip (old new xs ys : List Char) :
    replaceList old new xs.length (xs ++ ys) = replaceList old new 0 ys := by
  induction xs with
  | nil => rfl
  | cons x xs ih => exact ih

theorem replaceList_occurrence {old : List Char} (hold : old ≠ []) (new ys : List Char) :
    replaceList old new 0 (old ++ ys) = new ++ replaceList old new 0 ys := by
  obtain ⟨c, cs, rfl⟩ := List.exists_cons_of_ne_nil hold
  have hprefix : (c :: cs).isPrefixOf (c :: (cs ++ ys)) = true :=
    List.isPrefixOf_iff_prefix.mpr (List.prefix_append (c :: cs) ys)
  rw [List.cons_append, replaceList, if_pos hprefix]
  exact congrArg (new ++ ·) (replaceList_skip _ new cs ys)

theorem replaceList_pass {old xs ys : List Char} (new : List Char)
    (h : ∀ zs, zs ≠ [] → zs <:+ xs → ¬old <+: zs ++ ys) :
    replaceList old new 0 (xs ++ ys) = xs ++ replaceList old new 0 ys := by
  induction xs with
  | nil => rfl
  | cons x xs ih =>
    have hhead : ¬old.isPrefixOf (x :: (xs ++ ys)) = true := fun hp ↦
      h (x :: xs) (List.cons_ne_nil x xs) (List.suffix_refl _) (List.isPrefixOf_iff_prefix.mp hp)
    rw [List.cons_append, replaceList, if_neg hhead,
      ih fun zs hne hs ↦ h zs hne (hs.trans (List.suffix_cons x xs))]
    rfl

theorem replaceList_pass_of_not_mem {c : Char} {cs xs : List Char} (new ys : List Char)
    (h : c ∉ xs) :
    replaceList (c :: cs) new 0 (xs ++ ys) = xs ++ replaceList (c :: cs) new 0 ys := by
  refine replaceList_pass new fun zs hne hs hp ↦ ?_
  obtain ⟨z, zs, rfl⟩ := List.exists_cons_of_ne_nil hne
  obtain rfl : c = z := (List.cons_prefix_cons.mp hp).1
  exact h (hs.subset (List.mem_cons_self ..))

def isBraceless (cs : List Char) : Bool := cs.all fun c ↦ c != '\x7b' && c != '\x7d'

theorem isBraceless_append : isBraceless (xs ++ ys) = (isBraceless xs && isBraceless ys) :=
  List.all_append

theorem isBraceless_of_forall {p : Char → Bool} (hl : p '\x7b' = false) (hr : p '\x7d' = false)
    (h : ∀ c ∈ cs, p c = true) : isBraceless cs = true := by
  refine List.all_eq_true.mpr fun c hc ↦ Bool.and_eq_true_iff.mpr ⟨?_, ?_⟩
  · exact bne_iff_ne.mpr fun heq ↦ by simpa [heq, hl] using h c hc
  · exact bne_iff_ne.mpr fun heq ↦ by simpa [heq, hr] using h c hc

theorem left_notMem_of_isBraceless (h : isBraceless cs = true) : '\x7b' ∉ cs := by
  intro hc
  simpa using List.all_eq_true.mp h _ hc

theorem right_notMem_of_isBraceless (h : isBraceless cs = true) : '\x7d' ∉ cs := by
  intro hc
  simpa using List.all_eq_true.mp h _ hc

end Text

namespace Lambda

variable {ts : List Term} {sign : String}

/-- A piece of a formula: a blank or a parenthesis; a sign, a comma or the name of a function; a
constant; or a reference. -/
inductive Piece where
  | mark (c : Char)
  | word (cs : List Char)
  | constant (l : Literal)
  | reference (l : Literal)

namespace Piece

def mark? : List Piece → Option Char
  | .mark c :: _ => some c
  | _ => none

/-- The characters of pieces. A reference is written in a way that may depend on the marks right
before it and right behind it. -/
def spell (ref : Option Char → Option Char → Literal → List Char) :
    Option Char → List Piece → List Char
  | _, [] => []
  | _, .mark c :: ps => c :: spell ref (some c) ps
  | _, .word cs :: ps => cs ++ spell ref none ps
  | _, .constant l :: ps => l.formula.toList ++ spell ref none ps
  | before, .reference l :: ps => ref before (mark? ps) l ++ spell ref none ps

def chars (ref : Literal → String) (ps : List Piece) : List Char :=
  spell (fun _ _ l ↦ (ref l).toList) none ps

def constants : List Piece → List Literal
  | [] => []
  | .constant l :: ps => l :: constants ps
  | _ :: ps => constants ps

def references : List Piece → List Literal
  | [] => []
  | .reference l :: ps => l :: references ps
  | _ :: ps => references ps

variable {ref : Literal → String}

theorem spell_uniform (before : Option Char) (ps : List Piece) :
    spell (fun _ _ l ↦ (ref l).toList) before ps = chars ref ps := by
  cases ps with
  | nil => rfl
  | cons p ps => cases p <;> rfl

@[simp] theorem chars_nil : chars ref [] = [] := rfl

@[simp] theorem chars_mark (c : Char) (ps : List Piece) :
    chars ref (.mark c :: ps) = c :: chars ref ps :=
  congrArg (c :: ·) (spell_uniform (some c) ps)

@[simp] theorem chars_word (cs : List Char) (ps : List Piece) :
    chars ref (.word cs :: ps) = cs ++ chars ref ps := rfl

@[simp] theorem chars_constant (l : Literal) (ps : List Piece) :
    chars ref (.constant l :: ps) = l.formula.toList ++ chars ref ps := rfl

@[simp] theorem chars_reference (l : Literal) (ps : List Piece) :
    chars ref (.reference l :: ps) = (ref l).toList ++ chars ref ps := rfl

@[simp] theorem chars_append (ps qs : List Piece) :
    chars ref (ps ++ qs) = chars ref ps ++ chars ref qs := by
  induction ps with
  | nil => rfl
  | cons p ps ih => cases p <;> simp [ih]

theorem spell_congr {ref ref' : Option Char → Option Char → Literal → List Char} {ps : List Piece}
    (h : ∀ x y, ∀ l ∈ references ps, ref x y l = ref' x y l) (before : Option Char) :
    spell ref before ps = spell ref' before ps := by
  induction ps generalizing before with
  | nil => rfl
  | cons p ps ih =>
    cases p with
    | reference l =>
      rw [spell, spell, h _ _ l (List.mem_cons_self ..), ih fun x y k hk ↦ h x y k (.tail l hk)]
    | _ => simp only [spell, ih h]

theorem chars_congr {ref ref' : Literal → String} {ps : List Piece}
    (h : ∀ l ∈ references ps, ref l = ref' l) : chars ref ps = chars ref' ps :=
  spell_congr (fun _ _ l hl ↦ congrArg String.toList (h l hl)) none

@[simp] theorem references_append (ps qs : List Piece) :
    references (ps ++ qs) = references ps ++ references qs := by
  induction ps with
  | nil => rfl
  | cons p ps ih => cases p <;> simp [references, ih]

def around (ps : List Piece) (sign : String) (qs : List Piece) : List Piece :=
  .mark '(' :: ps ++ .mark ' ' :: .word sign.toList :: .mark ' ' :: qs ++ [.mark ')']

def separated (ps qs : List Piece) : List Piece := ps ++ .word [','] :: .mark ' ' :: qs

def applied (name : String) (ps : List Piece) : List Piece :=
  .word name.toList :: .mark '(' :: ps ++ [.mark ')']

def negated (ps : List Piece) : List Piece := .mark '(' :: .word ['-'] :: ps ++ [.mark ')']

theorem around_append (ps : List Piece) (sign : String) (qs rs : List Piece) :
    around ps sign qs ++ rs =
      .mark '(' :: (ps ++ .mark ' ' :: .word sign.toList :: .mark ' ' :: (qs ++ .mark ')' :: rs)) := by
  simp [around]

theorem separated_append (ps qs rs : List Piece) :
    separated ps qs ++ rs = ps ++ .word [','] :: .mark ' ' :: (qs ++ rs) := by
  simp [separated]

theorem applied_append (name : String) (ps rs : List Piece) :
    applied name ps ++ rs = .word name.toList :: .mark '(' :: (ps ++ .mark ')' :: rs) := by
  simp [applied]

theorem negated_append (ps rs : List Piece) :
    negated ps ++ rs = .mark '(' :: .word ['-'] :: (ps ++ .mark ')' :: rs) := by
  simp [negated]

end Piece

namespace Term

open Piece (around separated applied negated)

mutual

def pieces : Term → List Piece
  | .literal l => [.constant l]
  | .name s => [.reference (.datum (.text s))]
  | .binary op a b =>
    match op.sign? with
    | some sign => around (pieces a) sign (pieces b)
    | none => applied "MOD" (separated (pieces a) (pieces b))
  | .unary .neg a => negated (pieces a)
  | .unary _ a => pieces a
  | .compare a [(op, b)] => around (pieces a) (op.sign?.getD "") (pieces b)
  | .subscript (.name _) (.literal l) => [.reference l]
  | .call (.name f) args _ => applied (Text.upper f) (piecesList args)
  | _ => []

def piecesList : List Term → List Piece
  | [] => []
  | [t] => pieces t
  | t :: ts => separated (pieces t) (piecesList ts)

end

inductive Translatable : Term → Prop
  | literal (l : Literal) : Translatable (.literal l)
  | name (s : String) : Translatable (.name s)
  | subscript (s : String) (l : Literal) : Translatable (.subscript (.name s) (.literal l))
  | binary {op : BinaryOp} {sign : String} {a b : Term} (hop : op.sign? = some sign)
      (ha : Translatable a) (hb : Translatable b) : Translatable (.binary op a b)
  | remainder {a b : Term} (ha : Translatable a) (hb : Translatable b) :
      Translatable (.binary .mod a b)
  | negative {a : Term} (ha : Translatable a) : Translatable (.unary .neg a)
  | positive {a : Term} (ha : Translatable a) : Translatable (.unary .pos a)
  | compare {op : CompareOp} {sign : String} {a b : Term} (hop : op.sign? = some sign)
      (ha : Translatable a) (hb : Translatable b) : Translatable (.compare a [(op, b)])
  | call {f : String} {args : List Term} (hf : Text.upper f ∈ sharedFunctions)
      (hargs : ∀ t ∈ args, Translatable t) (keywords : List (Option String × Term)) :
      Translatable (.call (.name f) args keywords)

theorem bind_ok {α β : Type} {x : Except LambdaRefusal α} {f : α → Except LambdaRefusal β} {b : β}
    (h : x >>= f = .ok b) : ∃ a, x = .ok a ∧ f a = .ok b := by
  cases x with
  | error e => cases h
  | ok a => exact ⟨a, rfl, h⟩

mutual

theorem translatable_of_formula {ref : Literal → String} :
    ∀ {t : Term} {s : String}, t.formula ref = .ok s → t.Translatable
  | .literal l, _, _ => .literal l
  | .name s, _, _ => .name s
  | .binary op a b, s, h => by
    rw [formula] at h
    obtain ⟨f, hf, h⟩ := bind_ok h
    obtain ⟨g, hg, h⟩ := bind_ok h
    have ha := translatable_of_formula hf
    have hb := translatable_of_formula hg
    cases op with
    | add => exact .binary rfl ha hb
    | sub => exact .binary rfl ha hb
    | mul => exact .binary rfl ha hb
    | div => exact .binary rfl ha hb
    | pow => exact .binary rfl ha hb
    | mod => exact .remainder ha hb
    | _ => cases h
  | .unary op a, s, h => by
    rw [formula] at h
    obtain ⟨f, hf, h⟩ := bind_ok h
    have ha := translatable_of_formula hf
    cases op with
    | neg => exact .negative ha
    | pos => exact .positive ha
    | _ => cases h
  | .compare a [(op, b)], s, h => by
    rw [formula] at h
    obtain ⟨f, hf, h⟩ := bind_ok h
    obtain ⟨g, hg, h⟩ := bind_ok h
    cases hop : op.sign? with
    | none => rw [hop] at h; cases h
    | some sign => exact .compare hop (translatable_of_formula hf) (translatable_of_formula hg)
  | .compare a [], s, h => by
    obtain ⟨f, hf, h⟩ := bind_ok h
    cases h
  | .compare a (_ :: _ :: _), s, h => by
    obtain ⟨f, hf, h⟩ := bind_ok h
    cases h
  | .subscript v i, s, h => by
    cases v with
    | name n =>
      cases i with
      | literal l => exact .subscript n l
      | _ => cases h
    | _ => cases h
  | .call f args keywords, s, h => by
    cases f with
    | name n =>
      rw [formula] at h
      split at h
      next hn =>
        obtain ⟨gs, hgs, -⟩ := bind_ok h
        exact .call hn (translatable_of_formulas hgs) keywords
      next => cases h
    | _ => cases h

theorem translatable_of_formulas {ref : Literal → String} :
    ∀ {ts : List Term} {fs : List String}, formulas ref ts = .ok fs → ∀ t ∈ ts, t.Translatable
  | [], _, _ => List.forall_mem_nil _
  | u :: us, fs, h => by
    rw [formulas] at h
    obtain ⟨f, hf, h⟩ := bind_ok h
    obtain ⟨gs, hgs, -⟩ := bind_ok h
    exact List.forall_mem_cons.mpr ⟨translatable_of_formula hf, translatable_of_formulas hgs⟩

end

section Spelling

attribute [local simp] pieces piecesList around separated applied negated BinaryOp.sign? infixed

variable (ref : Literal → String)

def spelled (t : Term) : String := String.ofList (Piece.chars ref t.pieces)

theorem formulas_eq (h : ∀ t ∈ ts, t.formula ref = .ok (t.spelled ref)) :
    formulas ref ts = .ok (ts.map (spelled ref)) := by
  induction ts with
  | nil => rfl
  | cons t ts ih =>
    obtain ⟨ht, hts⟩ := List.forall_mem_cons.mp h
    rw [formulas, ht, ih hts]
    rfl

theorem intercalate_spelled (ts : List Term) :
    ", ".intercalate (ts.map (spelled ref)) = String.ofList (Piece.chars ref (piecesList ts)) := by
  induction ts with
  | nil => rfl
  | cons t ts ih =>
    cases ts with
    | nil => exact String.intercalate_singleton
    | cons u us =>
      rw [List.map_cons, List.map_cons, String.intercalate_cons_cons, ← List.map_cons, ih]
      apply String.toList_inj.mp
      simp [spelled]

theorem Translatable.formula_eq {t : Term} (h : t.Translatable) :
    t.formula ref = .ok (t.spelled ref) := by
  induction h with
  | literal | name | subscript => simp [formula, spelled]
  | @binary op sign a b hop ha hb iha ihb =>
    rw [formula, iha, ihb]
    -- the remainder is the one operator that is matched before its sign
    cases op <;> cases hop <;>
      exact congrArg Except.ok (String.toList_inj.mp (by simp [spelled]))
  | remainder ha hb iha ihb =>
    rw [formula, iha, ihb]
    refine congrArg Except.ok (String.toList_inj.mp ?_)
    simp [spelled]
  | negative ha ih =>
    rw [formula, ih]
    refine congrArg Except.ok (String.toList_inj.mp ?_)
    simp [spelled]
  | positive ha ih =>
    rw [formula, ih]
    rfl
  | compare hop ha hb iha ihb =>
    rw [formula, iha, ihb, hop]
    refine congrArg Except.ok (String.toList_inj.mp ?_)
    simp [spelled, hop]
  | call hf hargs keywords ih =>
    rw [formula, if_pos hf, formulas_eq ref ih]
    refine congrArg Except.ok (String.toList_inj.mp ?_)
    rw [intercalate_spelled]
    simp [spelled]

end Spelling

section Parts

variable {t : Term}

def constants (t : Term) : List Literal := Piece.constants t.pieces

attribute [local simp] pieces piecesList around separated applied negated Piece.references
  references referencesList

theorem references_piecesList (h : ∀ t ∈ ts, Piece.references t.pieces = t.references) :
    Piece.references (piecesList ts) = referencesList ts := by
  induction ts with
  | nil => rfl
  | cons t ts ih =>
    obtain ⟨ht, hts⟩ := List.forall_mem_cons.mp h
    cases ts with
    | nil => simpa using ht
    | cons u us => simpa [ht] using ih hts

theorem Translatable.references_pieces (h : t.Translatable) :
    Piece.references t.pieces = t.references := by
  induction h with
  | literal | name | subscript => simp
  | binary hop ha hb iha ihb => simp [hop, iha, ihb]
  | remainder ha hb iha ihb => simp [BinaryOp.sign?, iha, ihb]
  | negative ha ih => simp [ih]
  | positive ha ih => simpa using ih
  | compare hop ha hb iha ihb => simp [iha, ihb]
  | call hf hargs keywords ih => simp [references_piecesList ih]

end Parts

end Term

section Numbers

open Text (isBraceless isBraceless_append isBraceless_of_forall)

theorem isBraceless_toList_append (s t : String) :
    isBraceless (s ++ t).toList = (isBraceless s.toList && isBraceless t.toList) := by
  rw [String.toList_append, isBraceless_append]

theorem isBraceless_of_subset (h : xs ⊆ ys) (hys : isBraceless ys = true) : isBraceless xs = true :=
  List.all_eq_true.mpr fun c hc ↦ List.all_eq_true.mp hys c (h hc)

theorem isBraceless_toDigits (n : Nat) : isBraceless (Nat.toDigits 10 n) = true :=
  isBraceless_of_forall (by decide) (by decide) fun _ h ↦
    Nat.isDigit_of_mem_toDigits (by decide) (by decide) h

theorem isBraceless_zeros (n : Nat) : isBraceless (List.replicate n '0') = true :=
  isBraceless_of_subset (List.replicate_subset_singleton n '0') rfl

theorem isBraceless_withPoint {ds : List Char} (h : isBraceless ds = true) (places : Nat)
    (keep : Bool) : isBraceless (Decimal.withPoint ds places keep).toList = true := by
  have hwhole := isBraceless_of_subset (List.take_subset places ds) h
  have hrest := isBraceless_of_subset (List.drop_subset places ds) h
  have hlead : isBraceless (if (ds.take places).isEmpty then ['0'] else ds.take places) = true := by
    split
    · rfl
    · exact hwhole
  rw [Decimal.withPoint]
  split
  · rw [isBraceless_toList_append, String.toList_ofList, hlead]
    cases keep <;> rfl
  · simp only [isBraceless_toList_append, String.toList_ofList, hlead, hrest]
    rfl

theorem isBraceless_exponentText (e : Int) :
    isBraceless (Decimal.exponentText e).toList = true := by
  have hdigits : isBraceless (toString e.natAbs).toList = true := by
    simpa using isBraceless_toDigits e.natAbs
  rw [Decimal.exponentText, isBraceless_toList_append]
  refine Bool.and_eq_true_iff.mpr ⟨by split <;> rfl, ?_⟩
  split
  · rw [isBraceless_toList_append, hdigits]
    rfl
  · exact hdigits

theorem isBraceless_positive (s : Decimal.Style) (d : Decimal.Digits) :
    isBraceless (s.positive d).toList = true := by
  have hdigits := isBraceless_toDigits d.digits
  rw [Decimal.Style.positive]
  split
  · exact isBraceless_withPoint rfl 1 s.point
  · split
    · split
      · simp only [isBraceless_toList_append, String.toList_ofList, isBraceless_append,
          isBraceless_zeros, hdigits]
        rfl
      · refine isBraceless_withPoint ?_ _ _
        rw [isBraceless_append, isBraceless_zeros, hdigits]
        rfl
    · rw [isBraceless_toList_append, isBraceless_toList_append, isBraceless_withPoint hdigits,
        isBraceless_exponentText]
      rfl

theorem isBraceless_write (x : Float) :
    isBraceless (Decimal.Style.exact.write x).toList = true := by
  rw [Decimal.Style.write]
  split
  · split
    · rfl
    · split <;> rfl
  · rw [isBraceless_toList_append, isBraceless_positive, Bool.and_true]
    split <;> rfl

theorem isBraceless_showWhole (x : Float) : isBraceless (Literal.showWhole x).toList = true := by
  rw [Literal.showWhole]
  split
  · rw [String.toList_ofList]
    exact isBraceless_of_subset (List.take_subset ..) (isBraceless_write x)
  · simpa using isBraceless_write x

theorem isBraceless_int (n : Int) : isBraceless (toString n).toList = true := by
  have hnat (m : Nat) : isBraceless (toString m).toList = true := by
    simpa using isBraceless_toDigits m
  cases n with
  | ofNat m => exact hnat m
  | negSucc m =>
    have hsign : toString (Int.negSucc m) = "-" ++ toString (m + 1) := rfl
    rw [hsign, isBraceless_toList_append, hnat]
    rfl

def Literal.isPlain : Literal → Bool
  | .datum .null | .datum (.bool _) | .datum (.int _) | .datum (.float _) | .imaginary _
  | .ellipsis => true
  | l => isBraceless l.formula.toList

theorem Literal.isBraceless_of_isPlain {l : Literal} (h : l.isPlain = true) :
    isBraceless l.formula.toList = true := by
  cases l with
  | datum d =>
    cases d with
    | null => rfl
    | bool b => cases b <;> rfl
    | int n => exact isBraceless_int n
    | float x => exact isBraceless_write x
    | _ => exact h
  | imaginary x =>
    exact (isBraceless_toList_append _ "j").trans (by rw [isBraceless_showWhole]; rfl)
  | bytes bs => exact h
  | ellipsis => rfl

theorem Literal.isBraceless_text {n : String} (h : (Literal.datum (.text n)).isPlain = true) :
    isBraceless n.toList = true := by
  have hquoted : isBraceless ("\"" ++ n ++ "\"").toList = true := h
  rw [isBraceless_toList_append, isBraceless_toList_append] at hquoted
  exact (Bool.and_eq_true_iff.mp (Bool.and_eq_true_iff.mp hquoted).1).2

end Numbers

namespace Piece

/-- The signs between operands, the sign before one and the comma. -/
def signs : List (List Char) :=
  ["+", "-", "*", "/", "^", "=", "<>", "<", "<=", ">", ">=", ","].map String.toList

def functions : List (List Char) := ("MOD" :: sharedFunctions).map String.toList

/-- What may follow an operand: nothing, a closing parenthesis, a comma, or a blank and a sign. -/
def Closes : List Piece → Prop
  | [] => True
  | .mark c :: .word cs :: _ => c = ')' ∨ c = ' ' ∧ cs ∈ signs
  | .mark c :: _ => c = ')'
  | .word cs :: _ => cs = [',']
  | _ => False

/-- Pieces that follow one another as in a formula. -/
def Tidy : List Piece → Prop
  | [] => True
  | .mark c :: ps => c ∈ [' ', '(', ')'] ∧ Tidy ps
  | .word cs :: ps => (cs ∈ signs ∨ cs ∈ functions ∧ mark? ps = some '(') ∧ Tidy ps
  | .constant _ :: ps => Closes ps ∧ Tidy ps
  | .reference _ :: ps => Closes ps ∧ Tidy ps

variable {ps qs : List Piece}

theorem Tidy.isBraceless_mark {c : Char} (h : Tidy (.mark c :: ps)) :
    Text.isBraceless [c] = true := by
  have hmarks : [' ', '(', ')'].all (Text.isBraceless [·]) = true := by decide
  exact List.all_eq_true.mp hmarks c h.1

theorem Tidy.isBraceless_word (h : Tidy (.word cs :: ps)) : Text.isBraceless cs = true := by
  have hwords : ∀ cs ∈ signs ++ functions, Text.isBraceless cs = true := by decide
  exact hwords cs (List.mem_append.mpr (h.1.imp_right (·.1)))

theorem closes_parenthesis (ps : List Piece) : Closes (.mark ')' :: ps) := by
  cases ps with
  | nil => rfl
  | cons p ps =>
    cases p with
    | word cs => exact .inl rfl
    | _ => rfl

theorem tidy_parenthesis (h : Tidy ps) : Tidy (.mark ')' :: ps) := ⟨by decide, h⟩

/-- Pieces that are tidy in front of whatever may follow an operand. -/
def IsOperand (ps : List Piece) : Prop := ∀ rs, Closes rs → Tidy rs → Tidy (ps ++ rs)

theorem isOperand_constant (l : Literal) : IsOperand [.constant l] := fun _ hc hrs ↦ ⟨hc, hrs⟩

theorem isOperand_reference (l : Literal) : IsOperand [.reference l] := fun _ hc hrs ↦ ⟨hc, hrs⟩

theorem isOperand_around (hsign : sign.toList ∈ signs) (hps : IsOperand ps) (hqs : IsOperand qs) :
    IsOperand (around ps sign qs) := by
  intro rs _ hrs
  have hright := hqs _ (closes_parenthesis rs) (tidy_parenthesis hrs)
  rw [around_append]
  exact ⟨by decide, hps _ (Or.inr ⟨rfl, hsign⟩) ⟨by decide, .inl hsign, by decide, hright⟩⟩

theorem isOperand_negated (hps : IsOperand ps) : IsOperand (negated ps) := by
  intro rs _ hrs
  have hoperand := hps _ (closes_parenthesis rs) (tidy_parenthesis hrs)
  rw [negated_append]
  exact ⟨by decide, .inl (by decide), hoperand⟩

theorem isOperand_applied {name : String} (hname : name.toList ∈ functions) (hps : IsOperand ps) :
    IsOperand (applied name ps) := by
  intro rs _ hrs
  have hargs := hps _ (closes_parenthesis rs) (tidy_parenthesis hrs)
  rw [applied_append]
  exact ⟨.inr ⟨hname, rfl⟩, by decide, hargs⟩

theorem isOperand_separated (hps : IsOperand ps) (hqs : IsOperand qs) :
    IsOperand (separated ps qs) := by
  intro rs hc hrs
  rw [separated_append]
  exact hps _ rfl ⟨.inl (by decide), by decide, hqs rs hc hrs⟩

end Piece

namespace Term

open Piece

theorem mem_signs_of_binary {op : BinaryOp} (h : op.sign? = some sign) : sign.toList ∈ signs := by
  cases op <;> cases h <;> decide

theorem mem_signs_of_compare {op : CompareOp} (h : op.sign? = some sign) : sign.toList ∈ signs := by
  cases op <;> cases h <;> decide

theorem isOperand_piecesList (h : ∀ t ∈ ts, IsOperand t.pieces) : IsOperand (piecesList ts) := by
  induction ts with
  | nil => exact fun rs _ hrs ↦ hrs
  | cons t ts ih =>
    obtain ⟨ht, hts⟩ := List.forall_mem_cons.mp h
    cases ts with
    | nil => exact ht
    | cons u us => exact isOperand_separated ht (ih hts)

theorem Translatable.isOperand {t : Term} (h : t.Translatable) : IsOperand t.pieces := by
  induction h with
  | literal l => exact isOperand_constant l
  | name s => exact isOperand_reference _
  | subscript s l => exact isOperand_reference l
  | binary hop ha hb iha ihb =>
    rw [pieces, hop]
    exact isOperand_around (mem_signs_of_binary hop) iha ihb
  | remainder ha hb iha ihb =>
    have hmod : "MOD".toList ∈ functions := by decide
    exact isOperand_applied hmod (isOperand_separated iha ihb)
  | negative ha ih => exact isOperand_negated ih
  | positive ha ih => exact ih
  | compare hop ha hb iha ihb =>
    rw [pieces, hop]
    exact isOperand_around (mem_signs_of_compare hop) iha ihb
  | call hf hargs keywords ih =>
    exact isOperand_applied (List.mem_cons_of_mem _ (List.mem_map_of_mem hf))
      (isOperand_piecesList ih)

theorem Translatable.tidy {t : Term} (h : t.Translatable) : Tidy t.pieces := by
  simpa using h.isOperand [] trivial trivial

mutual

/-- The names that occur in a term, whether or not it has a formula: the variables and the constant
indices of variables. -/
def leaves : Term → List Literal
  | .literal _ => []
  | .name s => [.datum (.text s)]
  | .binary _ a b => leaves a ++ leaves b
  | .unary _ a => leaves a
  | .compare a rest => leaves a ++ leavesCompared rest
  | .subscript (.name _) (.literal l) => [l]
  | .subscript a i => leaves a ++ leaves i
  | .attribute a _ => leaves a
  | .call (.name _) args keywords => leavesList args ++ leavesKeywords keywords
  | .call f args keywords => leaves f ++ leavesList args ++ leavesKeywords keywords
  | .lambda _ defaults body => leavesList defaults ++ leaves body
  | .other _ ts => leavesList ts

def leavesList : List Term → List Literal
  | [] => []
  | t :: ts => leaves t ++ leavesList ts

def leavesCompared : List (CompareOp × Term) → List Literal
  | [] => []
  | (_, t) :: rest => leaves t ++ leavesCompared rest

def leavesKeywords : List (Option String × Term) → List Literal
  | [] => []
  | (_, t) :: rest => leaves t ++ leavesKeywords rest

end

mutual

/-- The names in the arguments that are given to functions by keyword. -/
def keywordLeaves : Term → List Literal
  | .binary _ a b => keywordLeaves a ++ keywordLeaves b
  | .unary _ a => keywordLeaves a
  | .compare a [(_, b)] => keywordLeaves a ++ keywordLeaves b
  | .call (.name _) args keywords => keywordLeavesList args ++ leavesKeywords keywords
  | _ => []

def keywordLeavesList : List Term → List Literal
  | [] => []
  | t :: ts => keywordLeaves t ++ keywordLeavesList ts

end

theorem mem_leavesList {l : Literal}
    (h : ∀ t ∈ ts, l ∈ t.leaves ↔ l ∈ t.references ∨ l ∈ t.keywordLeaves) :
    l ∈ leavesList ts ↔ l ∈ referencesList ts ∨ l ∈ keywordLeavesList ts := by
  induction ts with
  | nil => simp [leavesList, referencesList, keywordLeavesList]
  | cons t ts ih =>
    obtain ⟨ht, hts⟩ := List.forall_mem_cons.mp h
    simp only [leavesList, referencesList, keywordLeavesList, List.mem_append, ht, ih hts]
    exact or_or_or_comm

theorem Translatable.mem_leaves {t : Term} (h : t.Translatable) (l : Literal) :
    l ∈ t.leaves ↔ l ∈ t.references ∨ l ∈ t.keywordLeaves := by
  induction h with
  | literal | name | subscript => simp [leaves, references, keywordLeaves]
  | binary _ _ _ iha ihb | remainder _ _ iha ihb =>
    simp only [leaves, references, keywordLeaves, List.mem_append, iha, ihb]
    exact or_or_or_comm
  | negative _ ih | positive _ ih => simpa only [leaves, references, keywordLeaves] using ih
  | compare hop ha hb iha ihb =>
    simp only [leaves, leavesCompared, references, keywordLeaves, List.mem_append,
      List.append_nil, iha, ihb]
    exact or_or_or_comm
  | call hf hargs keywords ih =>
    simp only [leaves, references, keywordLeaves, List.mem_append, mem_leavesList ih]
    exact or_assoc

end Term

namespace Literal

/-- Whether a constant is an element of a set: the set has it, or one that has the same value. -/
def Within (l : Literal) (ls : List Literal) : Prop := ∃ r ∈ ls, r = l ∨ r.same l = true

theorem distinct_concat (ls : List Literal) (l : Literal) :
    distinct (ls ++ [l]) =
      if (distinct ls).any (same · l) then distinct ls else distinct ls ++ [l] := by
  rw [distinct, List.foldl_append]
  rfl

theorem mem_of_mem_distinct {l : Literal} {ls : List Literal} (h : l ∈ distinct ls) : l ∈ ls := by
  induction ls using List.reverseRecOn with
  | nil => exact h
  | append_singleton ls k ih =>
    rw [distinct_concat] at h
    split at h
    · exact List.mem_append_left _ (ih h)
    · exact List.mem_append.mpr ((List.mem_append.mp h).imp_left ih)

theorem within_distinct {l : Literal} {ls : List Literal} (h : l ∈ ls) : l.Within (distinct ls) := by
  induction ls using List.reverseRecOn with
  | nil => exact absurd h List.not_mem_nil
  | append_singleton ls k ih =>
    rw [distinct_concat]
    rcases List.mem_append.mp h with h | h
    · obtain ⟨r, hr, hrl⟩ := ih h
      refine ⟨r, ?_, hrl⟩
      split
      · exact hr
      · exact List.mem_append_left _ hr
    · obtain rfl := List.mem_singleton.mp h
      split
      next hany =>
        obtain ⟨r, hr, hrl⟩ := List.any_eq_true.mp hany
        exact ⟨r, hr, .inr hrl⟩
      next => exact ⟨l, List.mem_append_right _ (List.mem_singleton_self l), .inl rfl⟩

end Literal

namespace Analysis

open Text (isBraceless)
open Term (placeholder)

variable {cells : List (String × Datum)}

def maps (cells : List (String × Datum)) : Literal → Bool
  | .datum (.text n) => (cells.lookup n).isSome
  | _ => false

/-- The text that stands for a reference when there is a cell for it. -/
def entry (cells : List (String × Datum)) (l : Literal) : String :=
  match cell cells l with
  | .ok (.text c) => c
  | _ => ""

def isPlainCell : Datum → Bool
  | .text c => isBraceless c.toList
  | _ => false

theorem exists_text_of_isPlainCell {d : Datum} (h : isPlainCell d = true) :
    ∃ c, d = .text c ∧ isBraceless c.toList = true := by
  cases d with
  | text c => exact ⟨c, rfl, h⟩
  | _ => cases h

theorem exists_text_of_maps {l : Literal} (h : maps cells l = true) :
    ∃ n, l = .datum (.text n) := by
  cases l with
  | datum d =>
    cases d with
    | text n => exact ⟨n, rfl⟩
    | _ => cases h
  | _ => cases h

section Replacing

theorem toList_placeholder (n : String) :
    (placeholder (.datum (.text n))).toList = '\x7b' :: '\x7b' :: (n.toList ++ ['\x7d', '\x7d']) := by
  simp [placeholder, Literal.display, Datum.display]

theorem eq_of_prefix {c : Char} {xs ys us vs : List Char} (hxs : c ∉ xs) (hys : c ∉ ys)
    (h : xs ++ c :: us <+: ys ++ c :: vs) : xs = ys := by
  induction xs generalizing ys with
  | nil =>
    cases ys with
    | nil => rfl
    | cons y ys => exact absurd ((List.cons_prefix_cons.mp h).1 ▸ List.mem_cons_self ..) hys
  | cons x xs ih =>
    cases ys with
    | nil => exact absurd ((List.cons_prefix_cons.mp h).1 ▸ List.mem_cons_self ..) hxs
    | cons y ys =>
      obtain ⟨rfl, htail⟩ := List.cons_prefix_cons.mp h
      exact congrArg (x :: ·) (ih (fun hc ↦ hxs (.tail x hc)) (fun hc ↦ hys (.tail x hc)) htail)

theorem replaceList_placeholder_of_ne {m n : String} (hm : isBraceless m.toList = true)
    (hn : isBraceless n.toList = true) (hne : m ≠ n) (new ys : List Char) :
    Text.replaceList (placeholder (.datum (.text n))).toList new 0
        ((placeholder (.datum (.text m))).toList ++ ys) =
      (placeholder (.datum (.text m))).toList ++
        Text.replaceList (placeholder (.datum (.text n))).toList new 0 ys := by
  have hrest : '\x7b' ∉ m.toList ++ ['\x7d', '\x7d'] := by
    simpa using Text.left_notMem_of_isBraceless hm
  rw [toList_placeholder, toList_placeholder]
  refine Text.replaceList_pass new fun zs hzs hs hp ↦ ?_
  rcases List.suffix_cons_iff.mp hs with rfl | hs
  · -- at the first brace the two names would be the same
    rw [List.cons_append, List.cons_append, List.cons_prefix_cons, List.cons_prefix_cons] at hp
    have heq := eq_of_prefix (Text.right_notMem_of_isBraceless hn)
      (Text.right_notMem_of_isBraceless hm) (by simpa using hp.2.2)
    exact hne (String.toList_inj.mp heq.symm)
  · rcases List.suffix_cons_iff.mp hs with rfl | hs
    · -- at the second brace the other name would begin with a brace
      obtain ⟨z, zs, hz⟩ := List.exists_cons_of_ne_nil
        (List.append_ne_nil_of_right_ne_nil m.toList (List.cons_ne_nil '\x7d' ['\x7d']))
      rw [hz] at hp hrest
      have hbrace := (List.cons_prefix_cons.mp (List.cons_prefix_cons.mp hp).2).1
      exact hrest (hbrace ▸ List.mem_cons_self ..)
    · obtain ⟨z, zs, rfl⟩ := List.exists_cons_of_ne_nil hzs
      obtain rfl := (List.cons_prefix_cons.mp hp).1
      exact hrest (hs.subset (List.mem_cons_self ..))

/-- Replacing the placeholder of a name in a formula changes the references written so, and nothing
else. -/
theorem replaceList_chars {ref : Literal → String} {n : String} (hn : isBraceless n.toList = true)
    (c : String) {ps : List Piece} (hps : Piece.Tidy ps)
    (hconstants : ∀ l ∈ Piece.constants ps, l.isPlain = true)
    (hrefs : ∀ l ∈ Piece.references ps, isBraceless (ref l).toList = true ∨
      ∃ m, isBraceless m.toList = true ∧ ref l = placeholder (.datum (.text m))) :
    Text.replaceList (placeholder (.datum (.text n))).toList c.toList 0 (Piece.chars ref ps) =
      Piece.chars (fun l ↦ if ref l = placeholder (.datum (.text n)) then c else ref l) ps := by
  have hpass {xs : List Char} (ys : List Char) (hxs : isBraceless xs = true) :
      Text.replaceList (placeholder (.datum (.text n))).toList c.toList 0 (xs ++ ys) =
        xs ++ Text.replaceList (placeholder (.datum (.text n))).toList c.toList 0 ys := by
    rw [toList_placeholder]
    exact Text.replaceList_pass_of_not_mem _ ys (Text.left_notMem_of_isBraceless hxs)
  induction ps with
  | nil => rfl
  | cons p ps ih =>
    cases p with
    | mark d =>
      rw [Piece.chars_mark, Piece.chars_mark, ← ih hps.2 hconstants hrefs]
      exact hpass (Piece.chars ref ps) hps.isBraceless_mark
    | word cs =>
      rw [Piece.chars_word, Piece.chars_word, ← ih hps.2 hconstants hrefs]
      exact hpass (Piece.chars ref ps) hps.isBraceless_word
    | constant l =>
      obtain ⟨hl, hconstants⟩ := List.forall_mem_cons.mp hconstants
      rw [Piece.chars_constant, Piece.chars_constant, ← ih hps.2 hconstants hrefs]
      exact hpass (Piece.chars ref ps) (Literal.isBraceless_of_isPlain hl)
    | reference l =>
      obtain ⟨hl, hrefs⟩ := List.forall_mem_cons.mp hrefs
      rw [Piece.chars_reference, Piece.chars_reference, ← ih hps.2 hconstants hrefs]
      split
      next heq =>
        rw [heq]
        exact Text.replaceList_occurrence (by simp [toList_placeholder]) _ _
      next hne =>
        rcases hl with hl | ⟨m, hm, heq⟩
        · exact hpass (Piece.chars ref ps) hl
        · have hmn : m ≠ n := fun hmn ↦ hne (hmn ▸ heq)
          rw [heq]
          exact replaceList_placeholder_of_ne hm hn hmn _ _

end Replacing

section Filling

variable {order : List Literal} {c : String}

def filled (cells : List (String × Datum)) (done : List Literal) (l : Literal) : String :=
  if l ∈ done then entry cells l else placeholder l

theorem exists_cell (hcells : ∀ c ∈ cells, isPlainCell c.2 = true) {l : Literal}
    (hmaps : maps cells l = true) :
    ∃ c, cell cells l = .ok (.text c) ∧ isBraceless c.toList = true := by
  obtain ⟨n, rfl⟩ := exists_text_of_maps hmaps
  obtain ⟨d, hd⟩ := Option.isSome_iff_exists.mp hmaps
  obtain ⟨before, after, rfl, -⟩ := List.lookup_eq_some_iff.mp hd
  obtain ⟨c, rfl, hc⟩ := exists_text_of_isPlainCell (hcells (n, d) (by simp))
  exact ⟨c, by simp only [cell, hd], hc⟩

theorem fill_eq {l : Literal} (h : cell cells l = .ok (.text c)) (t : String) :
    fill cells t l = .ok (Text.replace t (placeholder l) c) := by
  rw [fill, h]
  rfl

theorem entry_eq {l : Literal} (h : cell cells l = .ok (.text c)) : entry cells l = c := by
  rw [entry, h]

theorem placeholder_inj {m n : String}
    (h : placeholder (.datum (.text m)) = placeholder (.datum (.text n))) : m = n := by
  have hlist := congrArg String.toList h
  simp only [toList_placeholder, List.cons.injEq, true_and, List.append_cancel_right_eq] at hlist
  exact String.toList_inj.mp hlist

theorem placeholder_ne (h : isBraceless c.toList = true) (n : String) :
    c ≠ placeholder (.datum (.text n)) := by
  intro heq
  rw [heq, toList_placeholder] at h
  exact Text.left_notMem_of_isBraceless h (List.mem_cons_self ..)

/-- Pieces whose constants are plain and whose references are texts with cells. -/
structure Fillable (cells : List (String × Datum)) (ps : List Piece) : Prop where
  entries : ∀ c ∈ cells, isPlainCell c.2 = true
  tidy : Piece.Tidy ps
  constants : ∀ l ∈ Piece.constants ps, l.isPlain = true
  references : ∀ l ∈ Piece.references ps,
    ∃ n, l = .datum (.text n) ∧ isBraceless n.toList = true ∧ maps cells l = true

variable {ps : List Piece} {n : String} {l : Literal}

theorem Fillable.filled_cases (h : Fillable cells ps) (hl : l ∈ Piece.references ps)
    (done : List Literal) :
    l ∈ done ∧ isBraceless (filled cells done l).toList = true ∨
      l ∉ done ∧ ∃ m, l = .datum (.text m) ∧ isBraceless m.toList = true ∧
        filled cells done l = placeholder (.datum (.text m)) := by
  obtain ⟨m, rfl, hm, hmaps⟩ := h.references l hl
  by_cases hdone : .datum (.text m) ∈ done
  · obtain ⟨c, hc, hbraceless⟩ := exists_cell h.entries hmaps
    rw [filled, if_pos hdone, entry_eq hc]
    exact .inl ⟨hdone, hbraceless⟩
  · rw [filled, if_neg hdone]
    exact .inr ⟨hdone, m, rfl, hm, rfl⟩

theorem Fillable.fill_chars (h : Fillable cells ps) (hl : l ∈ Piece.references ps)
    (done : List Literal) :
    fill cells (String.ofList (Piece.chars (filled cells done) ps)) l =
      .ok (String.ofList (Piece.chars (filled cells (done ++ [l])) ps)) := by
  obtain ⟨n, rfl, hn, hmaps⟩ := h.references l hl
  obtain ⟨c, hc, -⟩ := exists_cell h.entries hmaps
  rw [fill_eq hc, Text.replace, String.toList_ofList,
    replaceList_chars hn c h.tidy h.constants fun k hk ↦ ?_]
  · refine congrArg (fun cs ↦ Except.ok (String.ofList cs)) (Piece.chars_congr fun k hk ↦ ?_)
    rcases h.filled_cases hk done with ⟨hdone, hk⟩ | ⟨hdone, m, rfl, -, hk⟩
    · rw [if_neg (placeholder_ne hk n)]
      simp [filled, hdone]
    · rw [hk]
      split
      next heq =>
        obtain rfl := placeholder_inj heq
        simp [filled, entry_eq hc]
      next hne =>
        have hmn : m ≠ n := fun hmn ↦ hne (by rw [hmn])
        simp [filled, hdone, hmn]
  · rcases h.filled_cases hk done with ⟨-, hk⟩ | ⟨-, m, -, hm, hk⟩
    · exact .inl hk
    · exact .inr ⟨m, hm, hk⟩

theorem Fillable.foldlM_fill (h : Fillable cells ps) (horder : order ⊆ Piece.references ps)
    (done : List Literal) :
    order.foldlM (fill cells) (String.ofList (Piece.chars (filled cells done) ps)) =
      .ok (String.ofList (Piece.chars (filled cells (done ++ order)) ps)) := by
  induction order generalizing done with
  | nil => simp
  | cons l order ih =>
    obtain ⟨hl, horder⟩ := List.cons_subset.mp horder
    rw [List.foldlM_cons, h.fill_chars hl]
    simpa using ih horder (done ++ [l])

theorem Fillable.foldlM_fill_all (h : Fillable cells ps)
    (horder : ∀ l, l ∈ order ↔ l ∈ Piece.references ps) :
    order.foldlM (fill cells) (String.ofList (Piece.chars placeholder ps)) =
      .ok (String.ofList (Piece.chars (entry cells) ps)) := by
  have hempty : Piece.chars (filled cells []) ps = Piece.chars placeholder ps :=
    Piece.chars_congr fun l _ ↦ by simp [filled]
  have hall : Piece.chars (filled cells order) ps = Piece.chars (entry cells) ps :=
    Piece.chars_congr fun l hl ↦ by simp [filled, (horder l).mpr hl]
  have hfold := h.foldlM_fill (fun l hl ↦ (horder l).mp hl) []
  rwa [hempty, List.nil_append, hall] at hfold

theorem cell_unmapped (h : maps cells l = false) : ∃ n, cell cells l = .error (.unmapped n) := by
  cases l with
  | datum d =>
    cases d with
    | text n =>
      have hlookup : cells.lookup n = none :=
        Option.not_isSome_iff_eq_none.mp (Bool.eq_false_iff.mp h)
      exact ⟨n, by simp only [cell, hlookup]⟩
    | _ => exact ⟨_, rfl⟩
  | _ => exact ⟨_, rfl⟩

theorem foldlM_fill_unmapped (hcells : ∀ c ∈ cells, isPlainCell c.2 = true)
    (h : ∃ l ∈ order, maps cells l = false) (t : String) :
    ∃ n, order.foldlM (fill cells) t = .error (.unmapped n) := by
  induction order generalizing t with
  | nil =>
    obtain ⟨l, hl, -⟩ := h
    exact absurd hl List.not_mem_nil
  | cons k order ih =>
    rw [List.foldlM_cons]
    by_cases hk : maps cells k = true
    · obtain ⟨c, hc, -⟩ := exists_cell hcells hk
      have hrest : ∃ l ∈ order, maps cells l = false := by
        obtain ⟨l, hl, hmaps⟩ := h
        refine ⟨l, (List.mem_cons.mp hl).resolve_left fun heq ↦ ?_, hmaps⟩
        rw [heq, hk] at hmaps
        cases hmaps
      rw [fill_eq hc]
      exact ih hrest _
    · obtain ⟨n, hn⟩ := cell_unmapped (Bool.eq_false_iff.mpr hk)
      exact ⟨n, by rw [fill, hn]; rfl⟩

theorem formula_of_ofText {s : String} {a : Analysis} (h : ofText s = .ok a) :
    formula s cells = (a.references.foldlM (fill cells) a.template).map ("=" ++ ·) := by
  simp only [formula, h]
  cases a.references.foldlM (fill cells) a.template <;> rfl

end Filling

end Analysis

theorem Literal.eq_of_same_text {n : String} {l : Literal}
    (h : (Literal.datum (.text n)).same l = true) : l = .datum (.text n) := by
  cases l with
  | datum d =>
    cases d with
    | text m => rw [eq_of_beq (show (n == m) = true by simpa [same, Datum.same] using h)]
    | _ => simp [same, Datum.same, Datum.number?] at h
  | _ => simp [same] at h

namespace Term

open Text (isBraceless)
open Analysis

def referenceSet (t : Term) : List Literal := Literal.distinct t.references

variable {body : Term} {template : String} {cells : List (String × Datum)}

theorem mem_referenceSet (hmaps : ∀ l ∈ body.referenceSet, maps cells l = true) {l : Literal} :
    l ∈ body.referenceSet ↔ l ∈ body.references := by
  refine ⟨Literal.mem_of_mem_distinct, fun hl ↦ ?_⟩
  obtain ⟨r, hr, heq⟩ := Literal.within_distinct hl
  rcases heq with rfl | hsame
  · exact hr
  · obtain ⟨n, rfl⟩ := exists_text_of_maps (hmaps r hr)
    exact Literal.eq_of_same_text hsame ▸ hr

/-- Replacing placeholders is the same as writing the cells for the references: it stops exactly
when some reference has no cell, and the order does not matter. The references are the names that
occur, but for those in arguments given by keyword, which are left out. -/
theorem template_filled (htemplate : body.template = .ok template)
    (hconstants : ∀ l ∈ body.constants, l.isPlain = true)
    (hnames : ∀ l ∈ body.references, l.isPlain = true)
    (hcells : ∀ c ∈ cells, isPlainCell c.2 = true) :
    (∀ s params defaults, parse? s = some (.lambda params defaults body) →
      Analysis.ofText s = .ok ⟨template, params, body.referenceSet⟩ ∧
      Analysis.formula s cells =
        (body.referenceSet.foldlM (fill cells) template).map ("=" ++ ·)) ∧
    (∀ l ∈ body.referenceSet, l ∈ body.leaves) ∧
    ((∀ l ∈ body.leaves, l.Within body.referenceSet) ↔
      ∀ l ∈ body.keywordLeaves, l.Within body.referenceSet) ∧
    ∀ order : List Literal, (∀ l, l ∈ order ↔ l ∈ body.referenceSet) →
      ((∃ n, order.foldlM (fill cells) template = .error (.unmapped n)) ↔
        ∃ l ∈ body.referenceSet, maps cells l = false) ∧
      ((∀ l ∈ body.referenceSet, maps cells l = true) →
        ∃ f, body.formula (entry cells) = .ok f ∧
          order.foldlM (fill cells) template = .ok f) := by
  have hbody := translatable_of_formula htemplate
  have hspelled : template = String.ofList (Piece.chars placeholder body.pieces) :=
    Except.ok.inj (htemplate.symm.trans (hbody.formula_eq placeholder))
  have hsub : ∀ l ∈ body.referenceSet, l ∈ body.leaves := fun l hl ↦
    (hbody.mem_leaves l).mpr (.inl (Literal.mem_of_mem_distinct hl))
  refine ⟨fun s params defaults hparse ↦ ?_, hsub, ⟨fun h l hl ↦ ?_, fun h l hl ↦ ?_⟩,
    fun order horder ↦ ?_⟩
  · have htext : Analysis.ofText s = .ok ⟨template, params, body.referenceSet⟩ := by
      simp only [Analysis.ofText, hparse, htemplate]
      rfl
    exact ⟨htext, formula_of_ofText htext⟩
  · exact h l ((hbody.mem_leaves l).mpr (.inr hl))
  · exact ((hbody.mem_leaves l).mp hl).elim Literal.within_distinct (h l)
  · have hfilled (hmaps : ∀ l ∈ body.referenceSet, maps cells l = true) :
        order.foldlM (fill cells) template = .ok (body.spelled (entry cells)) := by
      have hfillable : Fillable cells body.pieces := by
        refine ⟨hcells, hbody.tidy, hconstants, fun l hl ↦ ?_⟩
        rw [hbody.references_pieces] at hl
        have hmap := hmaps l ((mem_referenceSet hmaps).mpr hl)
        obtain ⟨n, rfl⟩ := exists_text_of_maps hmap
        exact ⟨n, rfl, Literal.isBraceless_text (hnames _ hl), hmap⟩
      rw [hspelled, hfillable.foldlM_fill_all fun l ↦ ?_, spelled]
      rw [hbody.references_pieces, ← mem_referenceSet hmaps, horder]
    refine ⟨⟨fun h ↦ ?_, fun h ↦ ?_⟩, fun hmaps ↦ ⟨_, hbody.formula_eq _, hfilled hmaps⟩⟩
    · obtain ⟨n, hn⟩ := h
      by_contra hnone
      have hmaps : ∀ l ∈ body.referenceSet, maps cells l = true := fun l hl ↦
        Bool.eq_true_of_not_eq_false fun hl' ↦ hnone ⟨l, hl, hl'⟩
      rw [hfilled hmaps] at hn
      cases hn
    · obtain ⟨l, hl, hmap⟩ := h
      exact foldlM_fill_unmapped hcells ⟨l, (horder l).mpr hl, hmap⟩ template

def column (n : String) : Term := .subscript (.name "r") (.literal (.datum (.text n)))

theorem translatable_column (n : String) : (column n).Translatable := .subscript _ _

def remainderOfLarger : Term :=
  .binary .mod (.call (.name "max") [column "a", column "b"] []) (column "a")

/-- Two columns whose cells have the names of each other, the last filled in first. -/
theorem template_filled_swapped :
    ∃ template, remainderOfLarger.template = .ok template ∧
      [.datum (.text "b"), .datum (.text "a")].foldlM
        (fill [("a", .text "b"), ("b", .text "a")]) template = .ok "MOD(MAX(b, a), b)" := by
  have hbody : remainderOfLarger.Translatable :=
    .remainder (.call (by decide) (by simp [translatable_column]) []) (translatable_column "a")
  have htemplate := hbody.formula_eq placeholder
  have hset : remainderOfLarger.referenceSet = [.datum (.text "a"), .datum (.text "b")] := by decide
  have hcells : ∀ c ∈ [("a", Datum.text "b"), ("b", .text "a")], isPlainCell c.2 = true := by decide
  obtain ⟨-, -, -, horder⟩ := template_filled htemplate (by decide) (by decide) hcells
  obtain ⟨-, hfilled⟩ := horder [.datum (.text "b"), .datum (.text "a")] fun l ↦ by
    simp [hset, or_comm]
  obtain ⟨f, hf, hfold⟩ := hfilled (by rw [hset]; decide)
  obtain rfl := Except.ok.inj (hf.symm.trans (hbody.formula_eq _))
  exact ⟨_, htemplate, hfold.trans (congrArg Except.ok (by decide))⟩

def roundedByKeyword : Term := .call (.name "round") [column "a"] [(some "ndigits", column "b")]

/-- The name in the argument given by keyword is no reference, and its cell is not asked for. -/
theorem keyword_left_out :
    ∃ template, roundedByKeyword.template = .ok template ∧
      .datum (.text "b") ∈ roundedByKeyword.leaves ∧
      ¬(Literal.datum (.text "b")).Within roundedByKeyword.referenceSet ∧
      roundedByKeyword.referenceSet.foldlM (fill [("a", .text "A2")]) template = .ok "ROUND(A2)" := by
  have hbody : roundedByKeyword.Translatable :=
    .call (by decide) (by simp [translatable_column]) _
  have htemplate : roundedByKeyword.template = .ok "ROUND(\x7b\x7ba\x7d\x7d)" :=
    (hbody.formula_eq placeholder).trans (congrArg Except.ok (by decide))
  have hset : roundedByKeyword.referenceSet = [.datum (.text "a")] := by decide
  refine ⟨_, htemplate, by decide, fun h ↦ ?_, ?_⟩
  · obtain ⟨r, hr, hrb⟩ := h
    rw [hset] at hr
    obtain rfl := List.mem_singleton.mp hr
    exact absurd hrb (by decide)
  · rw [hset, List.foldlM_cons, fill_eq rfl]
    exact congrArg Except.ok (by decide)

end Term

end Lambda

end Gridplan
