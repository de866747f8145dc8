import Gridplan.Lambda.Evaluate
import Gridplan.Proofs.Formula.Expressions
import Gridplan.Proofs.Lambda.Placeholders
import Gridplan.Proofs.Layout.Keys

namespace Gridplan

variable {n : String} {c : Char} {cs : List Char} {xs : List Char} {z : Char}

namespace Text

theorem occursIn_iff {part cs : List Char} : occursIn part cs = true ↔ part <:+: cs := by
  induction cs with
  | nil => simp [occursIn]
  | cons c cs ih =>
    rw [occursIn, Bool.or_eq_true, List.isPrefixOf_iff_prefix, ih, List.infix_cons_iff]

theorem replaceList_of_absent {old xs : List Char} (new : List Char) (h : ¬old <:+: xs) :
    replaceList old new 0 xs = xs := by
  have hpass : replaceList old new 0 (xs ++ []) = xs ++ replaceList old new 0 [] :=
    replaceList_pass new fun zs _ hs hp ↦ h ((List.append_nil zs ▸ hp).isInfix.trans hs.isInfix)
  simpa [replaceList] using hpass

def Breaks (cs : List Char) : Prop := ∀ c ∈ cs.head?, isWord c = false

theorem breaks_nil : Breaks [] := by simp [Breaks]

theorem breaks_cons (h : isWord c = false) : Breaks (c :: cs) := by
  simpa [Breaks] using h

theorem prefix_of_breaks {n xs ys : List Char} (hn : ∀ c ∈ n, isWord c = true) (hys : Breaks ys)
    (h : n <+: xs ++ ys) : n <+: xs := by
  rcases List.prefix_or_prefix_of_prefix h (List.prefix_append xs ys) with hp | ⟨m, rfl⟩
  · exact hp
  · cases m with
    | nil => simp
    | cons c m =>
      rw [List.prefix_append_right_inj] at h
      obtain ⟨rest, hrest⟩ := h
      have hbreak := hys c (by simp [← hrest])
      rw [hn c (by simp)] at hbreak
      cases hbreak

theorem prefix_cases {n xs ys : List Char} (hn : ∀ c ∈ n, isWord c = true) (hys : Breaks ys)
    (h : n ++ [z] <+: xs ++ ys) : n ++ [z] <+: xs ∨ n = xs := by
  have hp := prefix_of_breaks hn hys ((List.prefix_append n [z]).trans h)
  rcases hp.length_le.lt_or_eq with hlt | heq
  · refine .inl (List.prefix_of_prefix_length_le h (List.prefix_append xs ys) ?_)
    simpa using hlt
  · exact .inr (hp.eq_of_length heq)

theorem notMem_of_isWord (hxs : ∀ c ∈ xs, isWord c = true) (hz : isWord z = false) : z ∉ xs := by
  intro hmem
  rw [hxs z hmem] at hz
  cases hz

theorem eq_of_prefix_word {n xs ys : List Char} {d z : Char} (hn : ∀ c ∈ n, isWord c = true)
    (hz : isWord z = false) (hxs : ∀ c ∈ xs, isWord c = true) (hd : isWord d = false)
    (h : n ++ [z] <+: xs ++ d :: ys) : n = xs ∧ z = d := by
  rcases prefix_cases hn (breaks_cons hd) h with hp | rfl
  · exact absurd (hp.subset (by simp)) (notMem_of_isWord hxs hz)
  · rw [List.prefix_append_right_inj] at h
    exact ⟨rfl, (List.cons_prefix_cons.mp h).1⟩

/-- Whether a name stands in a text, with blanks, parentheses or the ends of the text around it. -/
def standsIn (n cs : List Char) : Bool :=
  [' ', '('].any fun a ↦ [' ', ')'].any fun z ↦ occursIn (a :: n ++ [z]) (' ' :: cs ++ [' '])

end Text

namespace Lambda

namespace Piece

open Text (isWord Breaks breaks_nil breaks_cons prefix_cases standsIn)

def opens (before : Option Char) : Bool := before == some ' ' || before == some '('

def closes (after : Option Char) : Bool := after == some ' ' || after == some ')'

theorem not_infix_of_standsIn {n cs : List Char} {a z : Char} (ha : opens (some a) = true)
    (hz : closes (some z) = true) (h : standsIn n cs = false) :
    ¬a :: n ++ [z] <:+: ' ' :: cs ++ [' '] := by
  intro hinfix
  have hany : standsIn n cs = true := by
    refine List.any_eq_true.mpr ⟨a, ?_, List.any_eq_true.mpr ⟨z, ?_, Text.occursIn_iff.mpr hinfix⟩⟩
    · simpa [opens] using ha
    · simpa [closes] using hz
  rw [h] at hany
  cases hany

theorem isWord_of_closes (h : closes (some z) = true) : isWord z = false := by
  have hz : z = ' ' ∨ z = ')' := by simpa [closes] using h
  rcases hz with rfl | rfl <;> decide

/-- What a reference is written as: a word, or a word with an exclamation mark behind it and no
blank or parenthesis. -/
def Atom (cs : List Char) : Prop :=
  (∀ c ∈ cs, isWord c = true) ∨
    ∃ xs ys, cs = xs ++ '!' :: ys ∧ (∀ c ∈ xs, isWord c = true) ∧ ' ' ∉ ys ∧ '(' ∉ ys

theorem mark?_eq_some {ps : List Piece} (h : mark? ps = some c) : ∃ qs, ps = .mark c :: qs := by
  cases ps with
  | nil => cases h
  | cons p ps =>
    cases p with
    | mark d => exact ⟨ps, by rw [Option.some.inj h]⟩
    | _ => cases h

variable {ref : Option Char → Option Char → Literal → List Char} {before : Option Char}
  {ps : List Piece} {n r : List Char} {a z : Char}

theorem breaks_spell (h : Closes ps) : Breaks (spell ref before ps) := by
  cases ps with
  | nil => exact breaks_nil
  | cons p ps =>
    cases p with
    | mark c =>
      have hc : c = ')' ∨ c = ' ' := by
        cases ps with
        | nil => exact .inl h
        | cons q qs =>
          cases q with
          | word cs => exact h.imp_right (·.1)
          | _ => exact .inl h
      rcases hc with rfl | rfl <;> exact breaks_cons (by decide)
    | word cs =>
      obtain rfl : cs = [','] := h
      exact breaks_cons (by decide)
    | constant l => cases h
    | reference l => cases h

theorem exists_mark_of_prefix (hz : closes (some z) = true) (hps : Closes ps)
    (h : [z] <+: spell ref before ps) : ∃ qs, ps = .mark z :: qs := by
  cases ps with
  | nil => simp [spell] at h
  | cons p ps =>
    cases p with
    | mark c => exact ⟨ps, by rw [(List.cons_prefix_cons.mp h).1]⟩
    | word cs =>
      obtain rfl : cs = [','] := hps
      obtain rfl := (List.cons_prefix_cons.mp h).1
      cases hz
    | constant l => cases hps
    | reference l => cases hps

/-- Pieces among which a name can be told from whatever is no reference. -/
structure Legible (n : List Char) (ref : Option Char → Option Char → Literal → List Char)
    (ps : List Piece) : Prop where
  ne_nil : n ≠ []
  word : ∀ c ∈ n, isWord c = true
  tidy : Tidy ps
  constants : ∀ l ∈ constants ps, standsIn n l.formula.toList = false
  atoms : ∀ x y, ∀ l ∈ references ps, Atom (ref x y l)

theorem Legible.tail {p : Piece} (h : Legible n ref (p :: ps)) : Legible n ref ps := by
  cases p with
  | mark c => exact ⟨h.ne_nil, h.word, h.tidy.2, h.constants, h.atoms⟩
  | word cs => exact ⟨h.ne_nil, h.word, h.tidy.2, h.constants, h.atoms⟩
  | constant l =>
    exact ⟨h.ne_nil, h.word, h.tidy.2, fun k hk ↦ h.constants k (.tail l hk), h.atoms⟩
  | reference l =>
    exact ⟨h.ne_nil, h.word, h.tidy.2, h.constants, fun x y k hk ↦ h.atoms x y k (.tail l hk)⟩

theorem Legible.not_prefix_mark (hps : Legible n ref (.mark c :: ps)) (cs : List Char) :
    ¬n <+: c :: cs := by
  intro h
  obtain ⟨m, ms, rfl⟩ := List.exists_cons_of_ne_nil hps.ne_nil
  have hmarks : [' ', '(', ')'].all (!isWord ·) = true := by decide
  have hc := List.all_eq_true.mp hmarks c hps.tidy.1
  rw [← (List.cons_prefix_cons.mp h).1, hps.word m (List.mem_cons_self ..)] at hc
  cases hc

theorem Legible.function_of_prefix {cs ys : List Char} (hps : Legible n ref (.word cs :: ps))
    (h : n <+: cs ++ ys) : (∀ c ∈ cs, isWord c = true) ∧ ∃ qs, ps = .mark '(' :: qs := by
  obtain ⟨m, ms, rfl⟩ := List.exists_cons_of_ne_nil hps.ne_nil
  rcases hps.tidy.1 with hsign | ⟨hfunction, hmark⟩
  · have hsigns : ∀ cs ∈ signs, cs.head?.map isWord = some false := by decide
    have hhead := hsigns cs hsign
    cases cs with
    | nil => cases hhead
    | cons c cs =>
      rw [← (List.cons_prefix_cons.mp h).1, List.head?_cons, Option.map_some,
        hps.word m (List.mem_cons_self ..)] at hhead
      cases hhead
  · have hfunctions : ∀ cs ∈ functions, cs.all isWord = true := by decide
    exact ⟨List.all_eq_true.mp (hfunctions cs hfunction), mark?_eq_some hmark⟩

/-- A name with a closing mark behind it is found at the front of pieces only if they begin with a
reference that is written so and with that mark. -/
theorem Legible.exists_of_prefix (hps : Legible n ref ps) (hz : closes (some z) = true)
    (h : n ++ [z] <+: spell ref before ps) :
    ∃ l qs, ps = .reference l :: .mark z :: qs ∧ ref before (some z) l = n := by
  have hzw := isWord_of_closes hz
  have hz' : z = ' ' ∨ z = ')' := by simpa [closes] using hz
  have hfront := (List.prefix_append n [z]).trans h
  cases ps with
  | nil => simp [spell] at h
  | cons p ps =>
    cases p with
    | mark c => exact absurd hfront (hps.not_prefix_mark _)
    | word cs =>
      exfalso
      obtain ⟨hcs, qs, rfl⟩ := hps.function_of_prefix hfront
      have heq := (Text.eq_of_prefix_word hps.word hzw hcs (by decide) h).2
      rcases hz' with rfl | rfl <;> cases heq
    | constant l =>
      exfalso
      have hl := hps.constants l (List.mem_cons_self ..)
      rcases prefix_cases hps.word (breaks_spell hps.tidy.1) h with hp | heq
      · exact not_infix_of_standsIn (a := ' ') rfl hz hl
          ((List.cons_prefix_cons.mpr ⟨rfl, hp⟩).isInfix.trans (List.prefix_append _ [' ']).isInfix)
      · exact not_infix_of_standsIn (a := ' ') (z := ' ') rfl rfl hl (heq ▸ List.infix_refl _)
    | reference l =>
      rcases hps.atoms before (mark? ps) l (List.mem_cons_self ..) with hl | ⟨xs, ys, hl, hxs, -, -⟩
      · rcases prefix_cases hps.word (breaks_spell hps.tidy.1) h with hp | heq
        · exact absurd (hp.subset (by simp)) (Text.notMem_of_isWord hl hzw)
        · rw [spell, ← heq, List.prefix_append_right_inj] at h
          obtain ⟨qs, rfl⟩ := exists_mark_of_prefix hz hps.tidy.1 h
          exact ⟨l, qs, rfl, heq.symm⟩
      · exfalso
        rw [spell, hl, List.append_assoc] at h
        have heq := (Text.eq_of_prefix_word hps.word hzw hxs (by decide) h).2
        rcases hz' with rfl | rfl <;> cases heq

/-- A way of writing references in which a name between two marks gives way to a reference. -/
def settle (a z : Char) (n r : List Char) (ref : Option Char → Option Char → Literal → List Char) :
    Option Char → Option Char → Literal → List Char :=
  fun before after l ↦
    if before = some a ∧ after = some z ∧ ref before after l = n then r else ref before after l

theorem notMem_of_atom {u : List Char} (h : Atom u) (ha : opens (some a) = true) : a ∉ u := by
  have ha' : a = ' ' ∨ a = '(' := by simpa [opens] using ha
  rcases h with hu | ⟨xs, ys, rfl, hxs, hblank, hparen⟩
  · rcases ha' with rfl | rfl <;> exact Text.notMem_of_isWord hu (by decide)
  · rcases ha' with rfl | rfl
    · simpa [hblank] using Text.notMem_of_isWord hxs (by decide)
    · simpa [hparen] using Text.notMem_of_isWord hxs (by decide)

theorem notMem_of_word (h : Tidy (.word cs :: ps)) (ha : opens (some a) = true) : a ∉ cs := by
  have hwords : ∀ cs ∈ signs ++ functions, ' ' ∉ cs ∧ '(' ∉ cs := by decide
  have hcs := hwords cs (List.mem_append.mpr (h.1.imp_right (·.1)))
  have ha' : a = ' ' ∨ a = '(' := by simpa [opens] using ha
  rcases ha' with rfl | rfl
  · exact hcs.1
  · exact hcs.2

theorem Legible.not_prefix_of_constant {l : Literal} (hps : Legible n ref (.constant l :: ps))
    (ha : opens (some a) = true) (hz : closes (some z) = true) {zs : List Char}
    (hzs : zs ≠ []) (hs : zs <:+ l.formula.toList) :
    ¬a :: n ++ [z] <+: zs ++ spell ref none ps := by
  intro h
  have hl := hps.constants l (List.mem_cons_self ..)
  have hpadded : l.formula.toList <:+: ' ' :: l.formula.toList ++ [' '] :=
    ⟨[' '], [' '], rfl⟩
  obtain ⟨c, cs, rfl⟩ := List.exists_cons_of_ne_nil hzs
  obtain ⟨rfl, htail⟩ := List.cons_prefix_cons.mp h
  rcases prefix_cases hps.word (breaks_spell hps.tidy.1) htail with hp | rfl
  · have hinside : a :: n ++ [z] <+: a :: cs := List.cons_prefix_cons.mpr ⟨rfl, hp⟩
    exact not_infix_of_standsIn ha hz hl
      (hinside.isInfix.trans (hs.isInfix.trans hpadded))
  · -- the name ends the constant
    obtain ⟨xs, hxs⟩ := hs
    exact not_infix_of_standsIn ha (z := ' ') rfl hl ⟨' ' :: xs, [], by simp [← hxs]⟩

/-- Replacing a name between two marks changes the references that stand so, and nothing else. -/
theorem Legible.replaceList_spell (hps : Legible n ref ps) (ha : opens (some a) = true)
    (hz : closes (some z) = true)
    (hstart : ∀ l qs, ps = .reference l :: .mark z :: qs → before = some a →
      ref before (some z) l ≠ n) :
    Text.replaceList (a :: n ++ [z]) (a :: r ++ [z]) 0 (spell ref before ps) =
      spell (settle a z n r ref) before ps := by
  induction hlen : ps.length using Nat.strong_induction_on generalizing ps before with
  | _ k ih =>
    cases ps with
    | nil => rfl
    | cons p ps =>
      have hlt : ps.length < k := by simp [← hlen]
      -- behind anything but a mark nothing is looked for
      have hrest := ih _ hlt hps.tail (fun _ _ _ (h : none = some a) ↦ by cases h) rfl
      cases p with
      | mark c =>
        by_cases hmatch : c = a ∧ n ++ [z] <+: spell ref (some c) ps
        · obtain ⟨rfl, hp⟩ := hmatch
          obtain ⟨l, qs, rfl, hl⟩ := hps.tail.exists_of_prefix hz hp
          have hqs := ih qs.length (by simp [← hlen]; omega) hps.tail.tail.tail
            (fun k rs hk (hza : some z = some c) ↦ ?_) rfl
          · have hsettle : settle c z n r ref (some c) (some z) l = r := if_pos ⟨rfl, rfl, hl⟩
            have htext : spell ref before (.mark c :: .reference l :: .mark z :: qs) =
                (c :: n ++ [z]) ++ spell ref (some z) qs := by
              simp [spell, mark?, hl]
            rw [htext, Text.replaceList_occurrence (by simp), hqs]
            simp [spell, mark?, hsettle]
          · -- a mark behind a reference that another reference follows is a closing parenthesis
            subst hk
            obtain rfl : z = c := Option.some.inj hza
            obtain rfl : z = ')' := hps.tidy.2.1
            exact absurd ha (by decide)
        · have hnext := ih _ hlt hps.tail (fun l qs hqs (hca : some c = some a) hl ↦ ?_) rfl
          · rw [spell, spell, ← hnext]
            change Text.replaceList _ _ 0 ([c] ++ _) = [c] ++ _
            refine Text.replaceList_pass _ fun zs hzs hs hp ↦ hmatch ?_
            obtain rfl : zs = [c] :=
              (List.suffix_cons_iff.mp hs).resolve_right fun h ↦ hzs (List.suffix_nil.mp h)
            obtain ⟨rfl, hp⟩ := List.cons_prefix_cons.mp hp
            exact ⟨rfl, hp⟩
          · subst hqs
            refine hmatch ⟨Option.some.inj hca, ?_⟩
            simp [spell, mark?, hl]
      | word cs =>
        rw [spell, spell, ← hrest]
        exact Text.replaceList_pass_of_not_mem _ _ (notMem_of_word hps.tidy ha)
      | constant l =>
        rw [spell, spell, ← hrest]
        exact Text.replaceList_pass _ fun zs hzs hs ↦ hps.not_prefix_of_constant ha hz hzs hs
      | reference l =>
        have hsettle : settle a z n r ref before (mark? ps) l = ref before (mark? ps) l := by
          refine if_neg fun h ↦ ?_
          obtain ⟨hbefore, hmark, hl⟩ := h
          obtain ⟨qs, rfl⟩ := mark?_eq_some hmark
          exact hstart l qs rfl hbefore hl
        rw [spell, spell, ← hrest, hsettle]
        exact Text.replaceList_pass_of_not_mem _ _
          (notMem_of_atom (hps.atoms before (mark? ps) l (List.mem_cons_self ..)) ha)

/-- A way of writing references in which a name that marks set off gives way to a reference. -/
def settled (n r : List Char) (ref : Option Char → Option Char → Literal → List Char) :
    Option Char → Option Char → Literal → List Char :=
  fun before after l ↦
    if (opens before && closes after) = true ∧ ref before after l = n then r else ref before after l

/-- Characters with a name replaced between any two marks that set it off. -/
def swept (n r cs : List Char) : List Char :=
  let cs := Text.replaceList (' ' :: n ++ [' ']) (' ' :: r ++ [' ']) 0 cs
  let cs := Text.replaceList ('(' :: n ++ [' ']) ('(' :: r ++ [' ']) 0 cs
  let cs := Text.replaceList (' ' :: n ++ [')']) (' ' :: r ++ [')']) 0 cs
  Text.replaceList ('(' :: n ++ [')']) ('(' :: r ++ [')']) 0 cs

theorem settle_settle (n r : List Char)
    (ref : Option Char → Option Char → Literal → List Char) :
    settle '(' ')' n r (settle ' ' ')' n r (settle '(' ' ' n r (settle ' ' ' ' n r ref))) =
      settled n r ref := by
  funext before after l
  -- the four conditions exclude one another
  by_cases hblank : before = some ' '
  · subst hblank
    by_cases hafter : after = some ' '
    · subst hafter
      simp [settle, settled, opens, closes]
    · simp [settle, settled, opens, closes, hafter]
  · by_cases hparen : before = some '('
    · subst hparen
      by_cases hafter : after = some ' '
      · subst hafter
        simp [settle, settled, opens, closes]
      · simp [settle, settled, opens, closes, hafter]
    · simp [settle, settled, opens, hblank, hparen]

theorem Legible.settle (hps : Legible n ref ps) (hr : Atom r) (a z : Char) :
    Legible n (settle a z n r ref) ps := by
  refine ⟨hps.ne_nil, hps.word, hps.tidy, hps.constants, fun x y l hl ↦ ?_⟩
  rw [Piece.settle]
  split
  · exact hr
  · exact hps.atoms x y l hl

theorem Legible.swept_spell (hps : Legible n ref ps) (hr : Atom r) :
    swept n r (spell ref none ps) = spell (settled n r ref) none ps := by
  have hpass {ref : Option Char → Option Char → Literal → List Char} {a z : Char}
      (hps : Legible n ref ps) (ha : opens (some a) = true) (hz : closes (some z) = true) :
      Text.replaceList (a :: n ++ [z]) (a :: r ++ [z]) 0 (spell ref none ps) =
        spell (Piece.settle a z n r ref) none ps :=
    hps.replaceList_spell ha hz fun _ _ _ h ↦ by cases h
  have h₁ := hps.settle hr ' ' ' '
  have h₂ := h₁.settle hr '(' ' '
  have h₃ := h₂.settle hr ' ' ')'
  rw [swept, hpass hps rfl rfl, hpass h₁ rfl rfl, hpass h₂ rfl rfl, hpass h₃ rfl rfl, settle_settle]

/-- Pieces do not begin with a name unless they begin with a reference, or with a constant or a
function that does. -/
theorem Legible.not_leads (hps : Legible n ref ps)
    (hword : ∀ cs qs, ps = .word cs :: qs → ¬n <+: cs)
    (hconstant : ∀ l qs, ps = .constant l :: qs → ¬n <+: l.formula.toList)
    (hreference : ∀ l qs, ps ≠ .reference l :: qs) : ¬n <+: spell ref none ps := by
  intro h
  cases ps with
  | nil => exact hps.ne_nil (List.prefix_nil.mp h)
  | cons p ps =>
    cases p with
    | mark c => exact hps.not_prefix_mark _ h
    | word cs =>
      obtain ⟨-, qs, rfl⟩ := hps.function_of_prefix h
      exact hword cs _ rfl (Text.prefix_of_breaks hps.word (breaks_cons (by decide)) h)
    | constant l =>
      exact hconstant l ps rfl (Text.prefix_of_breaks hps.word (breaks_spell hps.tidy.1) h)
    | reference l => exact hreference l ps rfl

end Piece

end Lambda

namespace Layout

open Lambda.Piece (swept)

theorem swept_of_absent {n r cs : List Char} (h : ¬n <:+: cs) : swept n r cs = cs := by
  have hpass (a z : Char) : Text.replaceList (a :: n ++ [z]) (a :: r ++ [z]) 0 cs = cs := by
    refine Text.replaceList_of_absent _ fun hinfix ↦ h (.trans ⟨[a], [z], rfl⟩ hinfix)
  rw [swept, hpass, hpass, hpass, hpass]

def sweep (name ref text : String) : String :=
  let t := Text.replace text (" " ++ name ++ " ") (" " ++ ref ++ " ")
  let t := Text.replace t ("(" ++ name ++ " ") ("(" ++ ref ++ " ")
  let t := Text.replace t (" " ++ name ++ ")") (" " ++ ref ++ ")")
  Text.replace t ("(" ++ name ++ ")") ("(" ++ ref ++ ")")

theorem toList_sweep (name ref text : String) :
    (sweep name ref text).toList = swept name.toList ref.toList text.toList := by
  simp [sweep, swept, Text.replace]

theorem substitute_eq (name ref text : String) :
    substitute name ref text =
      if Text.holds text name then
        substitute.leading name ref name
          (substitute.leading name ref (name ++ " ") (sweep name ref text))
      else text := rfl

theorem leading_of_absent {name ref start t : String} (h : ¬start.toList <+: t.toList) :
    substitute.leading name ref start t = t :=
  if_neg fun hstart ↦ h (String.startsWith_string_iff.mp hstart)

theorem toList_substitute {name ref text : String}
    (h : ¬name.toList <+: swept name.toList ref.toList text.toList) :
    (substitute name ref text).toList = swept name.toList ref.toList text.toList := by
  rw [substitute_eq]
  split
  next =>
    rw [← toList_sweep] at h ⊢
    have hblank : ¬(name ++ " ").toList <+: (sweep name ref text).toList := fun hp ↦
      h ((String.toList_append ▸ List.prefix_append ..).trans hp)
    rw [leading_of_absent hblank, leading_of_absent h]
  next hholds =>
    have hnot : ¬name.toList <:+: text.toList := fun hinfix ↦
      hholds (Text.occursIn_iff.mpr hinfix)
    rw [swept_of_absent hnot]

theorem substitute_self {name ref : String}
    (h : swept name.toList ref.toList name.toList = name.toList) :
    substitute name ref name = ref := by
  have hsweep : sweep name ref name = name :=
    String.toList_inj.mp ((toList_sweep name ref name).trans h)
  have hblank : ¬(name ++ " ").toList <+: name.toList := fun hp ↦ by
    simpa using hp.length_le
  have hholds : Text.holds name name = true := Text.occursIn_iff.mpr (List.infix_refl _)
  rw [substitute_eq, if_pos hholds, hsweep, leading_of_absent hblank, substitute.leading,
    if_pos (String.startsWith_string_iff.mpr (List.prefix_refl _)), ← String.length_toList,
    List.drop_length]
  simp

end Layout

namespace Formula.Block

variable {b : Block}

def rangeText (b : Block) (n : String) : String :=
  match b.column n with
  | .ok t => t.render
  | .error _ => ""

theorem rangeText_of_mem (h : n ∈ b.schema) :
    b.rangeText n = (b.columnAt (b.schema.idxOf n)).render := by
  have hcolumn : b.column n = .ok (b.columnAt (b.schema.idxOf n)) := by
    rw [column, Layout.position_of_mem h]
    rfl
  rw [rangeText, hcolumn]

theorem atom_columnAt (hb : b.IsPlain) (i : Nat) :
    Lambda.Piece.Atom (b.columnAt i).render.toList := by
  have hcells {c : Char} (h : c ∈ b.cellChars i) : isReference c = true := by
    refine isReference_of_mem_columnAt hb.whole hb.sheet (i := i) ?_
    rw [toList_columnAt hb.whole]
    simp [h]
  refine .inr ⟨b.sheet.toList, b.cellChars i, toList_columnAt hb.whole i, hb.sheet, ?_, ?_⟩
  · exact fun h ↦ absurd (hcells h) (by decide)
  · exact fun h ↦ absurd (hcells h) (by decide)

def cells (b : Block) : List (String × Datum) := b.schema.map fun n ↦ (n, .text (b.rangeText n))

theorem lookup_cells (h : n ∈ b.schema) : b.cells.lookup n = some (.text (b.rangeText n)) := by
  obtain ⟨before, after, hschema, hn⟩ := List.eq_append_cons_of_mem h
  refine List.lookup_eq_some_iff.mpr ⟨before.map fun m ↦ (m, .text (b.rangeText m)),
    after.map fun m ↦ (m, .text (b.rangeText m)), ?_, fun p hp ↦ ?_⟩
  · rw [cells, hschema, List.map_append, List.map_cons]
  · obtain ⟨m, hm, rfl⟩ := List.mem_map.mp hp
    exact bne_iff_ne.mpr fun heq ↦ hn (heq ▸ hm)

theorem entry_cells (h : n ∈ b.schema) :
    Lambda.Analysis.entry b.cells (.datum (.text n)) = b.rangeText n :=
  Lambda.Analysis.entry_eq (by simp only [Lambda.Analysis.cell, lookup_cells h])

theorem substituteAll_eq {text : List String → String}
    (h : ∀ done n rest, b.schema = done ++ n :: rest →
      Layout.substitute n (b.columnAt done.length).render (text done) = text (done ++ [n])) :
    Layout.substituteAll b (text []) = text b.schema := by
  have hrun (done rest : List String) (hschema : b.schema = done ++ rest) :
      (rest.zipIdx done.length).foldl
          (fun t p ↦ Layout.substitute p.1 (b.columnAt p.2).render t) (text done) =
        text b.schema := by
    induction rest generalizing done with
    | nil => simp [hschema]
    | cons n rest ih =>
      rw [List.zipIdx_cons, List.foldl_cons, h done n rest hschema]
      simpa using ih (done ++ [n]) (by simp [hschema])
  exact hrun [] b.schema rfl

end Formula.Block

namespace Lambda.Piece

open Formula (Block)

variable {b : Block} {ps : List Piece}
variable {done rest : List String}

/-- References written as bare names, but for the names that have been replaced where marks set
them off. -/
def worded (b : Block) (done : List String) (before after : Option Char) : Literal → List Char
  | .datum (.text n) =>
    if (opens before && closes after) = true ∧ n ∈ done then (b.rangeText n).toList else n.toList
  | l => l.display.toList

/-- The text of a formula and a block over whose columns it is written. -/
structure Weavable (b : Block) (ps : List Piece) : Prop where
  plain : b.IsPlain
  names : ∀ n ∈ b.schema, n ≠ "" ∧ ∀ c ∈ n.toList, Text.isWord c = true
  tidy : Tidy ps
  references : ∀ l ∈ references ps, ∃ n ∈ b.schema, l = .datum (.text n)
  constants : ∀ l ∈ constants ps, l.isPlain = true ∧
    ∀ n ∈ b.schema, Text.standsIn n.toList l.formula.toList = false

theorem Weavable.atom_rangeText (h : Weavable b ps) (hn : n ∈ b.schema) :
    Atom (b.rangeText n).toList := by
  rw [Block.rangeText_of_mem hn]
  exact Block.atom_columnAt h.plain _

theorem Weavable.legible (h : Weavable b ps) {done : List String} (hn : n ∈ b.schema) :
    Legible n.toList (worded b done) ps := by
  refine ⟨?_, (h.names n hn).2, h.tidy, fun l hl ↦ (h.constants l hl).2 n hn, fun x y l hl ↦ ?_⟩
  · simpa using (h.names n hn).1
  · obtain ⟨m, hm, rfl⟩ := h.references l hl
    rw [worded]
    split
    · exact h.atom_rangeText hm
    · exact .inl (h.names m hm).2

theorem Weavable.mark_mem (h : Weavable b ps) (hn : n ∈ b.schema) :
    '!' ∈ (b.rangeText n).toList := by
  rw [Block.rangeText_of_mem hn, Block.toList_columnAt h.plain.whole]
  simp

theorem Weavable.mark_notMem (h : Weavable b ps) (hn : n ∈ b.schema) : '!' ∉ n.toList :=
  Text.notMem_of_isWord (h.names n hn).2 (by decide)

theorem Weavable.settled_worded (h : Weavable b ps) (hschema : b.schema = done ++ n :: rest)
    (before : Option Char) :
    spell (settled n.toList (b.columnAt done.length).render.toList (worded b done)) before ps =
      spell (worded b (done ++ [n])) before ps := by
  have hn : n ∈ b.schema := by simp [hschema]
  refine spell_congr (fun x y l hl ↦ ?_) before
  obtain ⟨m, hm, rfl⟩ := h.references l hl
  simp only [settled, worded, List.mem_append, List.mem_singleton]
  by_cases hset : (opens x && closes y) = true
  · simp only [hset, true_and]
    by_cases hdone : m ∈ done
    · have hne : ¬(b.rangeText m).toList = n.toList := fun heq ↦
        h.mark_notMem hn (heq ▸ h.mark_mem hm)
      simp [hdone, hne]
    · simp only [hdone, false_or, if_false]
      by_cases hmn : m = n
      · subst hmn
        rw [if_pos rfl, if_pos rfl, Block.rangeText_of_mem hm, hschema,
          List.idxOf_append_of_notMem hdone]
        simp
      · have hne : ¬m.toList = n.toList := fun heq ↦ hmn (String.toList_inj.mp heq)
        simp [hmn, hne]
  · simp [hset]

theorem swept_of_atom {n r u : List Char} (h : Atom u) : swept n r u = u := by
  have hpass {a : Char} (z : Char) (ha : opens (some a) = true) :
      Text.replaceList (a :: n ++ [z]) (a :: r ++ [z]) 0 u = u := by
    refine Text.replaceList_of_absent _ fun hinfix ↦ notMem_of_atom h ha ?_
    exact hinfix.subset (List.mem_cons_self ..)
  rw [swept, hpass _ rfl, hpass _ rfl, hpass _ rfl, hpass _ rfl]

/-- Whether no column name comes to stand at the beginning of a formula, other than as the reference
that is the whole of it. -/
def isClear (sheet n : List Char) : List Piece → Bool
  | .word cs :: _ => !n.isPrefixOf cs
  | .constant l :: _ => !n.isPrefixOf l.formula.toList
  | .reference l :: _ =>
    (n == l.display.toList || !n.isPrefixOf l.display.toList) && !n.isPrefixOf sheet
  | _ => true

theorem Weavable.substitute_worded (h : Weavable b ps)
    (hclear : ∀ n ∈ b.schema, isClear b.sheet.toList n.toList ps = true)
    (hreference : ∀ l qs, ps ≠ .reference l :: qs) (hschema : b.schema = done ++ n :: rest) :
    Layout.substitute n (b.columnAt done.length).render
        (String.ofList (spell (worded b done) none ps)) =
      String.ofList (spell (worded b (done ++ [n])) none ps) := by
  have hn : n ∈ b.schema := by simp [hschema]
  have hswept : swept n.toList (b.columnAt done.length).render.toList
      (String.ofList (spell (worded b done) none ps)).toList =
        spell (worded b (done ++ [n])) none ps := by
    rw [String.toList_ofList, (h.legible hn).swept_spell (Block.atom_columnAt h.plain _),
      h.settled_worded hschema]
  have hfront : ¬n.toList <+: spell (worded b (done ++ [n])) none ps := by
    have hn := hclear n hn
    refine (h.legible ‹_›).not_leads (fun cs qs hps hp ↦ ?_) (fun l qs hps hp ↦ ?_) hreference
    · rw [hps, isClear, List.isPrefixOf_iff_prefix.mpr hp] at hn
      cases hn
    · rw [hps, isClear, List.isPrefixOf_iff_prefix.mpr hp] at hn
      cases hn
  apply String.toList_inj.mp
  rw [Layout.toList_substitute (by rwa [hswept]), hswept, String.toList_ofList]

theorem Weavable.substitute_reference (h : Weavable b ps) {c n : String} (hc : c ∈ b.schema)
    (hclear : isClear b.sheet.toList n.toList [.reference (.datum (.text c))] = true)
    (hschema : b.schema = done ++ n :: rest) :
    Layout.substitute n (b.columnAt done.length).render
        (if c ∈ done then b.rangeText c else c) =
      if c ∈ done ++ [n] then b.rangeText c else c := by
  have hn : n ∈ b.schema := by simp [hschema]
  have hword := (h.names n hn).2
  have hatom : Atom (if c ∈ done then b.rangeText c else c).toList := by
    split
    · exact h.atom_rangeText hc
    · exact .inl (h.names c hc).2
  by_cases hnc : c ∉ done ∧ n = c
  · obtain ⟨hdone, rfl⟩ := hnc
    rw [if_neg hdone, Layout.substitute_self (swept_of_atom (.inl hword)), if_pos (by simp),
      Block.rangeText_of_mem hn, hschema, List.idxOf_append_of_notMem hdone]
    simp
  · have hfront : ¬n.toList <+: (if c ∈ done then b.rangeText c else c).toList := by
      intro hp
      rw [isClear, Bool.and_eq_true, Bool.or_eq_true, Bool.not_eq_true', Bool.not_eq_true',
        beq_iff_eq] at hclear
      obtain ⟨hname, hsheet⟩ := hclear
      split at hp
      next =>
        rw [Block.rangeText_of_mem hc, Block.toList_columnAt h.plain.whole] at hp
        have hp := Text.prefix_of_breaks hword (Text.breaks_cons (by decide)) hp
        exact Bool.eq_false_iff.mp hsheet (List.isPrefixOf_iff_prefix.mpr hp)
      next hdone =>
        rcases hname with heq | hname
        · exact hnc ⟨hdone, String.toList_inj.mp heq⟩
        · exact Bool.eq_false_iff.mp hname (List.isPrefixOf_iff_prefix.mpr hp)
    apply String.toList_inj.mp
    rw [Layout.toList_substitute (by rwa [swept_of_atom hatom]), swept_of_atom hatom]
    have hmem : c ∈ done ++ [n] ↔ c ∈ done := by
      simp only [List.mem_append, List.mem_singleton]
      exact or_iff_left_of_imp fun heq ↦ not_not.mp fun hdone ↦ hnc ⟨hdone, heq.symm⟩
    simp only [hmem]

def allApart : Option Char → List Piece → Bool
  | _, [] => true
  | _, .mark c :: ps => allApart (some c) ps
  | _, .word _ :: ps => allApart none ps
  | _, .constant _ :: ps => allApart none ps
  | before, .reference _ :: ps => opens before && closes (mark? ps) && allApart none ps

/-- Two ways of writing references that agree where marks set them off, and of which one has fewer
exclamation marks elsewhere, give the same formula just when all references are set off. -/
theorem spell_eq_iff_allApart {ref ref' : Option Char → Option Char → Literal → List Char}
    (hset : ∀ x y, (opens x && closes y) = true → ∀ l ∈ references ps, ref x y l = ref' x y l)
    (hother : ∀ x y, (opens x && closes y) = false → ∀ l ∈ references ps,
      (ref x y l).count '!' < (ref' x y l).count '!') (before : Option Char) :
    spell ref before ps = spell ref' before ps ↔ allApart before ps = true := by
  have hcases : (allApart before ps = true → spell ref before ps = spell ref' before ps) ∧
      (allApart before ps = false →
        (spell ref before ps).count '!' < (spell ref' before ps).count '!') := by
    induction ps generalizing before with
    | nil => exact ⟨fun _ ↦ rfl, fun h ↦ by cases h⟩
    | cons p ps ih =>
      cases p with
      | mark c =>
        obtain ⟨heq, hlt⟩ := ih hset hother (some c)
        refine ⟨fun h ↦ congrArg (c :: ·) (heq h), fun h ↦ ?_⟩
        simpa [spell, List.count_cons] using hlt h
      | word cs =>
        obtain ⟨heq, hlt⟩ := ih hset hother none
        refine ⟨fun h ↦ congrArg (cs ++ ·) (heq h), fun h ↦ ?_⟩
        simpa [spell] using hlt h
      | constant l =>
        obtain ⟨heq, hlt⟩ := ih hset hother none
        refine ⟨fun h ↦ congrArg (l.formula.toList ++ ·) (heq h), fun h ↦ ?_⟩
        simpa [spell] using hlt h
      | reference l =>
        obtain ⟨heq, hlt⟩ := ih (fun x y hxy k hk ↦ hset x y hxy k (.tail l hk))
          (fun x y hxy k hk ↦ hother x y hxy k (.tail l hk)) none
        have hle : (spell ref none ps).count '!' ≤ (spell ref' none ps).count '!' := by
          cases hrest : allApart none ps with
          | true => rw [heq hrest]
          | false => exact (hlt hrest).le
        cases hl : opens before && closes (mark? ps) with
        | true =>
          have hsame := hset _ _ hl l (List.mem_cons_self ..)
          simp only [allApart, hl, Bool.true_and, spell, hsame, List.count_append]
          exact ⟨fun h ↦ by rw [heq h], fun h ↦ Nat.add_lt_add_left (hlt h) _⟩
        | false =>
          have hfewer := hother _ _ hl l (List.mem_cons_self ..)
          simp only [allApart, hl, Bool.false_and, spell, List.count_append]
          exact ⟨Bool.noConfusion, fun _ ↦ Nat.add_lt_add_of_lt_of_le hfewer hle⟩
  refine ⟨fun heq ↦ ?_, hcases.1⟩
  by_contra hnot
  exact absurd (hcases.2 (Bool.eq_false_iff.mpr hnot)) (by rw [heq]; exact lt_irrefl _)

theorem Weavable.spell_worded_eq_iff (h : Weavable b ps) :
    spell (worded b b.schema) none ps = chars (Analysis.entry b.cells) ps ↔
      allApart none ps = true := by
  refine spell_eq_iff_allApart (fun x y hset l hl ↦ ?_) (fun x y hother l hl ↦ ?_) none
  · obtain ⟨n, hn, rfl⟩ := h.references l hl
    rw [worded, if_pos ⟨hset, hn⟩, Block.entry_cells hn]
  · obtain ⟨n, hn, rfl⟩ := h.references l hl
    rw [worded, if_neg (by simp [hother]), Block.entry_cells hn,
      List.count_eq_zero.mpr (h.mark_notMem hn)]
    exact List.count_pos_iff.mpr (h.mark_mem hn)

/-- How far an operand has its references set off, given whether it is set off itself on its two
sides. -/
def HasFlags (ps : List Piece) (flags : Bool → Bool → Bool) : Prop :=
  ∀ before rs, Closes rs → allApart before (ps ++ rs) =
    (flags (opens before) (closes (mark? rs)) && allApart none rs)

variable {qs : List Piece} {f g : Bool → Bool → Bool}

theorem allApart_of_closes (h : Closes ps) (before : Option Char) :
    allApart before ps = allApart none ps := by
  cases ps with
  | nil => rfl
  | cons p ps =>
    cases p with
    | reference l => cases h
    | _ => rfl

theorem hasFlags_around {sign : String} (hsign : sign.toList ∈ signs) (hps : HasFlags ps f)
    (hqs : HasFlags qs g) : HasFlags (around ps sign qs) fun _ _ ↦ f true true && g true true := by
  intro before rs hrs
  have hsigned : Closes (.mark ' ' :: .word sign.toList :: .mark ' ' :: (qs ++ .mark ')' :: rs)) :=
    Or.inr ⟨rfl, hsign⟩
  rw [around_append, allApart, hps (some '(') _ hsigned, allApart, allApart, allApart,
    hqs (some ' ') _ (closes_parenthesis rs), allApart, allApart_of_closes hrs, Bool.and_assoc]
  rfl

theorem hasFlags_negated (hps : HasFlags ps f) : HasFlags (negated ps) fun _ _ ↦ f false true := by
  intro before rs hrs
  rw [negated_append, allApart, allApart, hps none _ (closes_parenthesis rs), allApart,
    allApart_of_closes hrs]
  rfl

theorem hasFlags_applied (name : String) (hps : HasFlags ps f) :
    HasFlags (applied name ps) fun _ _ ↦ f true true := by
  intro before rs hrs
  rw [applied_append, allApart, allApart, hps (some '(') _ (closes_parenthesis rs), allApart,
    allApart_of_closes hrs]
  rfl

theorem hasFlags_separated (hps : HasFlags ps f) (hqs : HasFlags qs g) :
    HasFlags (separated ps qs) fun x y ↦ f x false && g true y := by
  intro before rs hrs
  have hcomma : Closes (.word [','] :: .mark ' ' :: (qs ++ rs)) := rfl
  rw [separated_append, hps before _ hcomma, allApart, allApart, hqs (some ' ') rs hrs, Bool.and_assoc]
  rfl

end Lambda.Piece

namespace Lambda

section Bare

theorem bareList_cons (hc : c ≠ '\x7b') (fuel : Nat) (cs : List Char) :
    bareList (fuel + 1) (c :: cs) = c :: bareList fuel cs := by
  rw [bareList]
  exact fun _ hbrace _ ↦ hc hbrace

theorem bareList_pass (hxs : '\x7b' ∉ xs) (fuel : Nat) (ys : List Char) :
    bareList (fuel + xs.length) (xs ++ ys) = xs ++ bareList fuel ys := by
  induction xs with
  | nil => rfl
  | cons x xs ih =>
    have hx : x ≠ '\x7b' := fun heq ↦ hxs (heq ▸ List.mem_cons_self ..)
    rw [List.length_cons, ← Nat.add_assoc, List.cons_append, bareList_cons hx,
      ih fun hmem ↦ hxs (.tail x hmem), List.cons_append]

theorem bareList_placeholder (hne : n ≠ "") (hword : ∀ c ∈ n.toList, Text.isWord c = true)
    (fuel : Nat) (ys : List Char) :
    bareList (fuel + 1) ((Term.placeholder (.datum (.text n))).toList ++ ys) =
      n.toList ++ bareList fuel ys := by
  have htake : (n.toList ++ '\x7d' :: '\x7d' :: ys).takeWhile Text.isWord = n.toList := by
    rw [List.takeWhile_append_of_pos hword, List.takeWhile_cons_of_neg (by decide), List.append_nil]
  have hdrop : (n.toList ++ '\x7d' :: '\x7d' :: ys).dropWhile Text.isWord =
      '\x7d' :: '\x7d' :: ys := by
    rw [List.dropWhile_append_of_pos hword, List.dropWhile_cons_of_neg (by decide)]
  have hempty : n.toList.isEmpty = false := by simpa using hne
  have htext : (Term.placeholder (.datum (.text n))).toList ++ ys =
      '\x7b' :: '\x7b' :: (n.toList ++ '\x7d' :: '\x7d' :: ys) := by
    simp [Analysis.toList_placeholder]
  rw [htext, bareList]
  simp only [htake, hdrop, hempty]
  rfl

theorem bareList_chars {ps : List Piece} (hps : Piece.Tidy ps)
    (hconstants : ∀ l ∈ Piece.constants ps, l.isPlain = true)
    (hrefs : ∀ l ∈ Piece.references ps,
      ∃ n, l = .datum (.text n) ∧ n ≠ "" ∧ ∀ c ∈ n.toList, Text.isWord c = true) {fuel : Nat}
    (hfuel : (Piece.chars Term.placeholder ps).length ≤ fuel) :
    bareList fuel (Piece.chars Term.placeholder ps) = Piece.chars Literal.display ps := by
  -- whatever is no reference is passed over
  have hpass {xs : List Char} (ys : List Char) {fuel : Nat} (hxs : Text.isBraceless xs = true)
      (hfuel : (xs ++ ys).length ≤ fuel) :
      ∃ k, ys.length ≤ k ∧ bareList fuel (xs ++ ys) = xs ++ bareList k ys := by
    refine ⟨fuel - xs.length, by simp at hfuel; omega, ?_⟩
    have hsplit : fuel = fuel - xs.length + xs.length := by simp at hfuel; omega
    rw [hsplit, bareList_pass (Text.left_notMem_of_isBraceless hxs), Nat.add_sub_cancel]
  induction ps generalizing fuel with
  | nil => cases fuel <;> rfl
  | cons p ps ih =>
    cases p with
    | mark d =>
      obtain ⟨k, hk, heq⟩ := hpass (Piece.chars Term.placeholder ps) hps.isBraceless_mark
        (by simpa using hfuel)
      rw [Piece.chars_mark, Piece.chars_mark, ← ih hps.2 hconstants hrefs hk]
      exact heq
    | word cs =>
      obtain ⟨k, hk, heq⟩ := hpass _ hps.isBraceless_word hfuel
      rw [Piece.chars_word, Piece.chars_word, ← ih hps.2 hconstants hrefs hk]
      exact heq
    | constant l =>
      obtain ⟨hl, hconstants⟩ := List.forall_mem_cons.mp hconstants
      obtain ⟨k, hk, heq⟩ := hpass _ (Literal.isBraceless_of_isPlain hl) hfuel
      rw [Piece.chars_constant, Piece.chars_constant, ← ih hps.2 hconstants hrefs hk]
      exact heq
    | reference l =>
      obtain ⟨⟨n, rfl, hne, hword⟩, htail⟩ := List.forall_mem_cons.mp hrefs
      rw [Piece.chars_reference] at hfuel ⊢
      cases fuel with
      | zero => simp [Analysis.toList_placeholder] at hfuel
      | succ fuel =>
        rw [bareList_placeholder hne hword, Piece.chars_reference, ih hps.2 hconstants htail]
        · rfl
        · simp [Analysis.toList_placeholder] at hfuel
          omega

end Bare

namespace Term

open Piece

mutual

/-- Whether blanks and parentheses set off every reference in the formula of a term, given whether
they set off the formula itself on its two sides. -/
def isSetOff : Term → Bool → Bool → Bool
  | .name _, before, after => before && after
  | .subscript (.name _) (.literal _), before, after => before && after
  | .binary op a b, _, _ =>
    match op.sign? with
    | some _ => isSetOff a true true && isSetOff b true true
    | none => isSetOff a true false && isSetOff b true true
  | .unary .neg a, _, _ => isSetOff a false true
  | .unary _ a, before, after => isSetOff a before after
  | .compare a [(_, b)], _, _ => isSetOff a true true && isSetOff b true true
  | .call (.name _) args _, _, _ => areSetOff args true true
  | _, _, _ => true

def areSetOff : List Term → Bool → Bool → Bool
  | [], _, _ => true
  | [t], before, after => isSetOff t before after
  | t :: ts, before, after => isSetOff t before false && areSetOff ts true after

end

def isBare : Term → Bool
  | .name _ => true
  | .subscript (.name _) (.literal _) => true
  | .unary .pos a => isBare a
  | _ => false

theorem hasFlags_piecesList {ts : List Term} (h : ∀ t ∈ ts, HasFlags t.pieces t.isSetOff) :
    HasFlags (piecesList ts) (areSetOff ts) := by
  induction ts with
  | nil =>
    intro before rs hrs
    exact allApart_of_closes hrs before
  | cons t ts ih =>
    obtain ⟨ht, hts⟩ := List.forall_mem_cons.mp h
    cases ts with
    | nil => exact ht
    | cons u us => exact hasFlags_separated ht (ih hts)

theorem Translatable.hasFlags {t : Term} (h : t.Translatable) : HasFlags t.pieces t.isSetOff := by
  induction h with
  | literal l => exact fun _ _ _ ↦ rfl
  | name s => exact fun _ _ _ ↦ rfl
  | subscript s l => exact fun _ _ _ ↦ rfl
  | binary hop ha hb iha ihb =>
    have hflags := hasFlags_around (mem_signs_of_binary hop) iha ihb
    intro before rs hrs
    rw [pieces, isSetOff, hop]
    exact hflags before rs hrs
  | remainder ha hb iha ihb => exact hasFlags_applied "MOD" (hasFlags_separated iha ihb)
  | negative ha ih => exact hasFlags_negated ih
  | positive ha ih => exact ih
  | compare hop ha hb iha ihb =>
    rw [pieces, hop]
    exact hasFlags_around (mem_signs_of_compare hop) iha ihb
  | call hf hargs keywords ih => exact hasFlags_applied _ (hasFlags_piecesList ih)

theorem Translatable.allApart_pieces {t : Term} (h : t.Translatable) :
    allApart none t.pieces = t.isSetOff false false := by
  simpa [opens, closes, mark?, allApart] using h.hasFlags none [] trivial

theorem Translatable.isBare_cases {t : Term} (h : t.Translatable) :
    t.isBare = true ∧ (∃ l, t.pieces = [.reference l]) ∨
      t.isBare = false ∧ ∀ l qs, t.pieces ≠ .reference l :: qs := by
  induction h with
  | name s => exact .inl ⟨rfl, _, rfl⟩
  | subscript s l => exact .inl ⟨rfl, _, rfl⟩
  | positive ha ih => exact ih
  | literal l => exact .inr ⟨rfl, fun k qs h ↦ by cases h⟩
  | binary hop ha hb => exact .inr ⟨rfl, fun k qs h ↦ by rw [pieces, hop] at h; cases h⟩
  | remainder ha hb => exact .inr ⟨rfl, fun k qs h ↦ by cases h⟩
  | negative ha => exact .inr ⟨rfl, fun k qs h ↦ by cases h⟩
  | compare hop ha hb => exact .inr ⟨rfl, fun k qs h ↦ by cases h⟩
  | call hf hargs keywords => exact .inr ⟨rfl, fun k qs h ↦ by cases h⟩

open Formula (Block)

variable {b : Block} {body : Term} {template : String}

theorem Translatable.recorded_eq (h : body.Translatable) (hweavable : Weavable b body.pieces) :
    recorded (some body) = String.ofList (Piece.chars Literal.display body.pieces) := by
  have hrefs : ∀ l ∈ Piece.references body.pieces,
      ∃ n, l = .datum (.text n) ∧ n ≠ "" ∧ ∀ c ∈ n.toList, Text.isWord c = true := by
    intro l hl
    obtain ⟨n, hn, rfl⟩ := hweavable.references l hl
    exact ⟨n, rfl, hweavable.names n hn⟩
  have htemplate : body.template = .ok (body.spelled placeholder) := h.formula_eq placeholder
  simp only [recorded, Option.map_some, htemplate, spelled, String.toList_ofList]
  rw [bareList_chars h.tidy (fun l hl ↦ (hweavable.constants l hl).1) hrefs (by simp)]

theorem Translatable.fillable (h : body.Translatable) (hweavable : Weavable b body.pieces) :
    Analysis.Fillable b.cells body.pieces := by
  refine ⟨fun c hc ↦ ?_, h.tidy, fun l hl ↦ (hweavable.constants l hl).1, fun l hl ↦ ?_⟩
  · obtain ⟨n, hn, rfl⟩ := List.mem_map.mp hc
    refine Text.isBraceless_of_forall (p := Formula.isReference) rfl rfl fun c hc ↦ ?_
    rw [Block.rangeText_of_mem hn] at hc
    exact Block.isReference_of_mem_columnAt hweavable.plain.whole hweavable.plain.sheet hc
  · obtain ⟨n, hn, rfl⟩ := hweavable.references l hl
    refine ⟨n, rfl, Text.isBraceless_of_forall (p := Formula.isReference) rfl rfl fun c hc ↦ ?_, ?_⟩
    · simp [Formula.isReference, (hweavable.names n hn).2 c hc]
    · rw [Analysis.maps, Block.lookup_cells hn]
      rfl

theorem Translatable.substituteAll_recorded (h : body.Translatable)
    (hweavable : Weavable b body.pieces)
    (hclear : ∀ n ∈ b.schema, isClear b.sheet.toList n.toList body.pieces = true)
    (hreference : ∀ l qs, body.pieces ≠ .reference l :: qs) :
    Layout.substituteAll b (recorded (some body)) =
      String.ofList (spell (worded b b.schema) none body.pieces) := by
  have hworded : Piece.chars Literal.display body.pieces =
      spell (worded b []) none body.pieces := by
    refine spell_congr (fun x y l hl ↦ ?_) none
    obtain ⟨n, -, rfl⟩ := hweavable.references l hl
    rw [worded, if_neg (by simp)]
    rfl
  rw [h.recorded_eq hweavable, hworded]
  exact Block.substituteAll_eq fun _ _ _ ↦ hweavable.substitute_worded hclear hreference

/-- The names that are replaced in the formula of a lambda with bare references are its references
just when the formula is a reference, or blanks and parentheses set off every reference in it. -/
theorem computed_recorded (hb : b.IsPlain)
    (hnames : ∀ n ∈ b.schema, n ≠ "" ∧ ∀ c ∈ n.toList, Text.isWord c = true)
    (htemplate : body.template = .ok template)
    (hreferences : ∀ l ∈ body.references, ∃ n ∈ b.schema, l = .datum (.text n))
    (hconstants : ∀ l ∈ body.constants, l.isPlain = true ∧
      ∀ n ∈ b.schema, Text.standsIn n.toList l.formula.toList = false)
    (hclear : ∀ n ∈ b.schema, isClear b.sheet.toList n.toList body.pieces = true) :
    ∃ t f, Layout.computed b (.raw (.text (recorded (some body)))) = .ok t ∧
      body.referenceSet.foldlM (Analysis.fill b.cells) template = .ok f ∧
      (t.render = f ↔ body.isBare = true ∨ body.isSetOff false false = true) := by
  have hbody := translatable_of_formula htemplate
  have hweavable : Weavable b body.pieces :=
    ⟨hb, hnames, hbody.tidy, hbody.references_pieces ▸ hreferences, hconstants⟩
  have hfillable := hbody.fillable hweavable
  have hmaps : ∀ l ∈ body.referenceSet, Analysis.maps b.cells l = true := by
    intro l hl
    have hmem := Literal.mem_of_mem_distinct hl
    rw [← hbody.references_pieces] at hmem
    obtain ⟨n, -, -, hmap⟩ := hfillable.references l hmem
    exact hmap
  have hfill : body.referenceSet.foldlM (Analysis.fill b.cells) template =
      .ok (String.ofList (Piece.chars (Analysis.entry b.cells) body.pieces)) := by
    have hspelled := htemplate.symm.trans (hbody.formula_eq placeholder)
    rw [Except.ok.inj hspelled, spelled, hfillable.foldlM_fill_all fun l ↦ ?_]
    rw [hbody.references_pieces, mem_referenceSet hmaps]
  refine ⟨_, _, rfl, hfill, ?_⟩
  change Layout.substituteAll b (recorded (some body)) = _ ↔ _
  rcases hbody.isBare_cases with ⟨hbare, l, hl⟩ | ⟨hbare, hreference⟩
  · obtain ⟨c, hc, rfl⟩ := hweavable.references l (by simp [hl, Piece.references])
    rw [hbody.recorded_eq hweavable]
    rw [hl] at hclear ⊢
    have hname : String.ofList (Piece.chars Literal.display [.reference (.datum (.text c))]) = c := by
      simp [Literal.display, Datum.display]
    have hcell : String.ofList
        (Piece.chars (Analysis.entry b.cells) [.reference (.datum (.text c))]) = b.rangeText c := by
      simp [Block.entry_cells hc]
    have hall := Block.substituteAll_eq fun done n rest hschema ↦
      hweavable.substitute_reference hc (hclear n (by simp [hschema])) hschema
    rw [if_neg List.not_mem_nil, if_pos hc] at hall
    rw [hname, hcell, hall]
    simp [hbare]
  · rw [hbody.substituteAll_recorded hweavable hclear hreference, String.ofList_inj,
      hweavable.spell_worded_eq_iff, hbody.allApart_pieces, hbare]
    simp

theorem names_goods : ∀ n ∈ Block.goods.schema, n ≠ "" ∧ ∀ c ∈ n.toList, Text.isWord c = true := by
  have hnames : ∀ n ∈ Block.goods.schema, n ≠ "" ∧ n.toList.all Text.isWord = true := by decide
  exact fun n hn ↦ (hnames n hn).imp_right List.all_eq_true.mp

def productWithSum : Term :=
  .binary .mul (column "a") (.binary .add (column "b") (.literal (.datum (.int 1))))

theorem computed_recorded_product : ∃ template t f,
    productWithSum.template = .ok template ∧
    Layout.computed Block.goods (.raw (.text (recorded (some productWithSum)))) = .ok t ∧
      productWithSum.referenceSet.foldlM (Analysis.fill Block.goods.cells) template = .ok f ∧
      t.render = f := by
  have hbody : productWithSum.Translatable :=
    .binary rfl (.subscript _ _) (.binary rfl (.subscript _ _) (.literal _))
  have htemplate := hbody.formula_eq placeholder
  obtain ⟨t, f, ht, hf, hiff⟩ := computed_recorded Block.isPlain_goods names_goods htemplate
    (by decide) (by decide) (by decide)
  exact ⟨_, t, f, htemplate, ht, hf, hiff.mpr (by decide)⟩

theorem rangeText_goods : Block.goods.rangeText "a" = "Source_0!A2:A1" ∧
    Block.goods.rangeText "b" = "Source_0!B2:B1" := by
  have htext {n : String} {c : Char} (h : n ∈ Block.goods.schema)
      (hc : Grid.letterList (Block.goods.range.col + Block.goods.schema.idxOf n) = [c]) :
      Block.goods.rangeText n = String.ofList ("Source_0!".toList ++ [c, '2', ':', c, '1']) := by
    apply String.toList_inj.mp
    rw [Block.rangeText_of_mem h, Block.toList_columnAt rfl, Block.cellChars,
      Range.toList_cellText, Range.toList_cellText, String.toList_ofList, hc]
    rfl
  exact ⟨(htext (by decide) (by rw [Grid.letterList]; rfl)).trans (by decide),
    (htext (by decide) (by rw [Grid.letterList]; rfl)).trans (by decide)⟩

/-- The sign before a reference hides it from the replacement, and so does the comma behind one. -/
theorem recorded_missed :
    (∃ t, Layout.computed Block.goods (.raw (.text (recorded (some (.unary .neg (column "a")))))) =
        .ok t ∧ t.render = "(-a)" ∧
      (Term.unary .neg (column "a")).formula (Analysis.entry Block.goods.cells) =
        .ok "(-Source_0!A2:A1)") ∧
    ∃ t, Layout.computed Block.goods
        (.raw (.text (recorded (some (.binary .mod (column "a") (column "b")))))) =
        .ok t ∧ t.render = "MOD(a, Source_0!B2:B1)" ∧
      (Term.binary .mod (column "a") (column "b")).formula (Analysis.entry Block.goods.cells) =
        .ok "MOD(Source_0!A2:A1, Source_0!B2:B1)" := by
  have hnegative : (Term.unary .neg (column "a")).Translatable := .negative (.subscript _ _)
  have hremainder : (Term.binary .mod (column "a") (column "b")).Translatable :=
    .remainder (.subscript _ _) (.subscript _ _)
  have ha := (Block.entry_cells (by decide)).trans rangeText_goods.1
  have hb := (Block.entry_cells (by decide)).trans rangeText_goods.2
  refine ⟨⟨_, rfl, ?_, (hnegative.formula_eq _).trans ?_⟩,
    _, rfl, ?_, (hremainder.formula_eq _).trans ?_⟩
  · exact (hnegative.substituteAll_recorded
      ⟨Block.isPlain_goods, names_goods, hnegative.tidy, by decide, by decide⟩ (by decide)
      fun l qs h ↦ by cases h).trans (by decide)
  · simp [spelled, pieces, column, negated, ha]
  · refine (hremainder.substituteAll_recorded
      ⟨Block.isPlain_goods, names_goods, hremainder.tidy, by decide, by decide⟩ (by decide)
      fun l qs h ↦ by cases h).trans ?_
    have hspell : spell (worded Block.goods Block.goods.schema) none
        (Term.binary .mod (column "a") (column "b")).pieces =
          "MOD(a, ".toList ++ (Block.goods.rangeText "b").toList ++ [')'] := rfl
    rw [hspell, rangeText_goods.2]
    decide
  · simp [spelled, pieces, BinaryOp.sign?, column, applied, separated, ha, hb]

end Term

end Lambda

end Gridplan
