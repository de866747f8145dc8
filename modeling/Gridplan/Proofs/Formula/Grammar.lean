import Gridplan.Text.Identifier
import Mathlib.Tactic

namespace Gridplan.Formula

/-- A sign between two operands. A minus can also stand before a single one. -/
inductive Sign where
  | add | sub | mul | div | eq | ne | lt | le | gt | ge
deriving DecidableEq

namespace Sign

def level : Sign → Nat
  | .mul | .div => 2
  | .add | .sub => 1
  | _ => 0

def chars : Sign → List Char
  | .add => ['+']
  | .sub => ['-']
  | .mul => ['*']
  | .div => ['/']
  | .eq => ['=']
  | .ne => ['<', '>']
  | .lt => ['<']
  | .le => ['<', '=']
  | .gt => ['>']
  | .ge => ['>', '=']

theorem level_le (s : Sign) : s.level ≤ 2 := by cases s <;> decide

end Sign

inductive Symbol where
  | ref (r : String)
  | number (n : Nat)
  | text (s : String)
  | sign (s : Sign)
  | opening
  | closing
deriving DecidableEq

inductive Tree where
  | ref (r : String)
  | number (n : Int)
  | text (s : String)
  | negative (t : Tree)
  | binary (s : Sign) (left right : Tree)
deriving DecidableEq

/-- Whether a character stands in references: in the name of a sheet, in the letters and numbers of
its cells, or between these. -/
def isReference (c : Char) : Bool := Text.isWord c || c == '!' || c == ':' || c == '$'

inductive Lexeme where
  | blank
  | word (w : List Char)
  | quoted (s : List Char)
  | text (s : List Char)
  | symbol (s : Symbol)
deriving DecidableEq

namespace Lexeme

def extend? : Lexeme → Char → Option Lexeme
  | .word w, c => if isReference c then some (.word (w ++ [c])) else none
  | .quoted s, c => some (if c = '"' then .text s else .quoted (s ++ [c]))
  | .text s, c => if c = '"' then some (.quoted (s ++ ['"'])) else none
  | .symbol (.sign .lt), c =>
    if c = '>' then some (.symbol (.sign .ne))
    else if c = '=' then some (.symbol (.sign .le))
    else none
  | .symbol (.sign .gt), c => if c = '=' then some (.symbol (.sign .ge)) else none
  | _, _ => none

def begin? (c : Char) : Option Lexeme :=
  if isReference c then some (.word [c])
  else match c with
    | ' ' => some .blank
    | '"' => some (.quoted [])
    | '(' => some (.symbol .opening)
    | ')' => some (.symbol .closing)
    | '+' => some (.symbol (.sign .add))
    | '-' => some (.symbol (.sign .sub))
    | '*' => some (.symbol (.sign .mul))
    | '/' => some (.symbol (.sign .div))
    | '=' => some (.symbol (.sign .eq))
    | '<' => some (.symbol (.sign .lt))
    | '>' => some (.symbol (.sign .gt))
    | _ => none

def symbols? : Lexeme → Option (List Symbol)
  | .blank => some []
  | .word w =>
    some [if w.all Char.isDigit then .number (Nat.ofDigitChars 10 w 0) else .ref (String.ofList w)]
  | .quoted _ => none
  | .text s => some [.text (String.ofList s)]
  | .symbol s => some [s]

end Lexeme

structure Cut where
  done : List Symbol
  current : Lexeme

namespace Cut

def step (k : Cut) (c : Char) : Option Cut :=
  match k.current.extend? c with
  | some l => some ⟨k.done, l⟩
  | none => do
    let more ← k.current.symbols?
    let l ← Lexeme.begin? c
    return ⟨k.done ++ more, l⟩

def finish (k : Cut) : Option (List Symbol) := k.current.symbols?.map (k.done ++ ·)

end Cut

def symbols? (s : String) : Option (List Symbol) :=
  (s.toList.foldlM Cut.step ⟨[], .blank⟩).bind Cut.finish

inductive Pending where
  | opening
  | minus
  | left (s : Sign) (t : Tree)

/-- Completes what waits for a tree and binds at least as tightly as a level. -/
def reduce (level : Nat) : Tree → List Pending → Tree × List Pending
  | t, .minus :: st => reduce level (.negative t) st
  | t, .left s l :: st =>
    if level ≤ s.level then reduce level (.binary s l t) st else (t, .left s l :: st)
  | t, st => (t, st)

inductive Reader where
  | operand (st : List Pending)
  | operator (t : Tree) (st : List Pending)

namespace Reader

/-- Takes a number together with a minus right before it. -/
def number (n : Nat) : List Pending → Reader
  | .minus :: st => .operator (.number (-n)) st
  | st => .operator (.number n) st

def step : Reader → Symbol → Option Reader
  | .operand st, .number n => some (number n st)
  | .operand st, .ref r => some (.operator (.ref r) st)
  | .operand st, .text s => some (.operator (.text s) st)
  | .operand st, .opening => some (.operand (.opening :: st))
  | .operand st, .sign .sub => some (.operand (.minus :: st))
  | .operator t st, .sign s =>
    let (t, st) := reduce s.level t st
    some (.operand (.left s t :: st))
  | .operator t st, .closing =>
    match reduce 0 t st with
    | (t, .opening :: st) => some (.operator t st)
    | _ => none
  | _, _ => none

def finish : Reader → Option Tree
  | .operator t st =>
    match reduce 0 t st with
    | (t, []) => some t
    | _ => none
  | .operand _ => none

end Reader

def Tree.ofSymbols? (ts : List Symbol) : Option Tree :=
  (ts.foldlM Reader.step (.operand [])).bind Reader.finish

def Tree.ofText? (s : String) : Option Tree := (symbols? s).bind ofSymbols?

/-- The grammar: a tree is written with symbols, all its signs outside of parentheses being of some
level at least. Signs associate to the left, and a minus before a number belongs to the number. -/
inductive Written : Nat → List Symbol → Tree → Prop
  | ref (k : Nat) (r : String) : Written k [.ref r] (.ref r)
  | number (k n : Nat) : Written k [.number n] (.number n)
  | minus (k n : Nat) : Written k [.sign .sub, .number n] (.number (-n))
  | text (k : Nat) (s : String) : Written k [.text s] (.text s)
  | group (k : Nat) {ts : List Symbol} {t : Tree} (h : Written 0 ts t) :
      Written k (.opening :: ts ++ [.closing]) t
  | negative {k : Nat} {ts : List Symbol} {t : Tree} (hk : k ≤ 3) (h : Written 3 ts t)
      (hts : ∀ n, ts ≠ [.number n]) : Written k (.sign .sub :: ts) (.negative t)
  | binary {k : Nat} {ls rs : List Symbol} {l r : Tree} (s : Sign) (hk : k ≤ s.level)
      (hl : Written s.level ls l) (hr : Written (s.level + 1) rs r) :
      Written k (ls ++ .sign s :: rs) (.binary s l r)

variable {j k : Nat} {ts us vs : List Symbol} {t : Tree} {st : List Pending}

theorem Written.mono (h : Written k ts t) (hj : j ≤ k) : Written j ts t := by
  cases h with
  | ref _ r => exact .ref j r
  | number _ n => exact .number j n
  | minus _ n => exact .minus j n
  | text _ s => exact .text j s
  | group _ h => exact .group j h
  | negative hk h hts => exact .negative (hj.trans hk) h hts
  | binary s hk hl hr => exact .binary s (hj.trans hk) hl hr

/-- Whether nothing that waits binds as tightly as a level. A minus waits only for an operand without
signs. -/
def Shut (level : Nat) : List Pending → Prop
  | .left s _ :: _ => s.level < level
  | .minus :: _ => 3 ≤ level
  | _ => True

theorem Shut.mono (h : Shut j st) (hjk : j ≤ k) : Shut k st := by
  match st with
  | [] => trivial
  | .opening :: _ => trivial
  | .minus :: _ => exact le_trans h hjk
  | .left s l :: _ => exact lt_of_lt_of_le h hjk

theorem reduce_of_shut (h : Shut k st) (hk : k ≤ 2) : reduce k t st = (t, st) := by
  match st with
  | [] => rfl
  | .opening :: _ => rfl
  | .minus :: _ =>
    have : 3 ≤ k := h
    omega
  | .left s l :: _ => rw [reduce, if_neg (Nat.not_le.mpr h)]

/-- Symbols leave a reader with a tree and with more that waits, from which every level that can
follow makes the tree they are written for. -/
theorem Written.run (h : Written k ts t) :
    ∃ u p, (∀ j ≤ k, ∀ st, reduce j u (p ++ st) = reduce j t st) ∧
      ∀ st, Shut k st → (st.head? = some .minus → ∀ n, ts ≠ [.number n]) →
        ts.foldlM Reader.step (.operand st) = some (.operator u (p ++ st)) := by
  induction h with
  | ref k r => exact ⟨.ref r, [], fun _ _ _ ↦ rfl, fun _ _ _ ↦ rfl⟩
  | text k s => exact ⟨.text s, [], fun _ _ _ ↦ rfl, fun _ _ _ ↦ rfl⟩
  | minus k n => exact ⟨.number (-n), [], fun _ _ _ ↦ rfl, fun _ _ _ ↦ rfl⟩
  | number k n =>
    refine ⟨.number n, [], fun _ _ _ ↦ rfl, fun st _ hnum ↦ ?_⟩
    match st with
    | [] => rfl
    | .opening :: _ => rfl
    | .left _ _ :: _ => rfl
    | .minus :: _ => exact absurd rfl (hnum rfl n)
  | @group k ts t _ ih =>
    obtain ⟨u, p, hreduce, hrun⟩ := ih
    refine ⟨t, [], fun _ _ _ ↦ rfl, fun st _ _ ↦ ?_⟩
    have hclose : Reader.step (.operator u (p ++ .opening :: st)) .closing =
        some (.operator t st) := by
      simp only [Reader.step, hreduce 0 le_rfl, reduce]
    have hinner := hrun (.opening :: st) trivial (by simp)
    have hopen : Reader.step (.operand st) .opening = some (.operand (.opening :: st)) := rfl
    simp [hopen, List.foldlM_append, hinner, hclose]
  | @negative k ts t hk _ hts ih =>
    obtain ⟨u, p, hreduce, hrun⟩ := ih
    refine ⟨u, p ++ [.minus], fun j hj st ↦ ?_, fun st _ _ ↦ ?_⟩
    · rw [List.append_assoc, List.singleton_append, hreduce j (hj.trans hk), reduce]
    · rw [List.foldlM_cons]
      simp [Reader.step, hrun (.minus :: st) le_rfl fun _ ↦ hts]
  | @binary k ls rs l r s hk _ _ ihl ihr =>
    obtain ⟨u, p, hreduce, hrun⟩ := ihl
    obtain ⟨v, q, hreduce', hrun'⟩ := ihr
    refine ⟨v, q ++ [.left s l], fun j hj st ↦ ?_, fun st hst _ ↦ ?_⟩
    · rw [List.append_assoc, List.singleton_append, hreduce' j (by omega), reduce,
        if_pos (hj.trans hk)]
    · have hshut : Shut s.level st := hst.mono hk
      have hminus : st.head? = some .minus → ∀ n, ls ≠ [.number n] := by
        intro h
        obtain ⟨st', rfl⟩ := List.head?_eq_some_iff.mp h
        have : 3 ≤ s.level := hshut
        exact absurd s.level_le (by omega)
      have hsign : Reader.step (.operator u (p ++ st)) (.sign s) =
          some (.operand (.left s l :: st)) := by
        simp only [Reader.step, hreduce s.level le_rfl, reduce_of_shut hshut s.level_le]
      have hright := hrun' (.left s l :: st) (Nat.lt_succ_self _) (by simp)
      rw [List.foldlM_append, hrun st hshut hminus]
      simp [hsign, hright]

def least : List Pending → Nat
  | .left s _ :: _ => s.level + 1
  | .minus :: _ => 3
  | _ => 0

inductive Awaited : List Pending → List Symbol → Prop
  | nil : Awaited [] []
  | opening {st : List Pending} {us : List Symbol} (h : Awaited st us) :
      Awaited (.opening :: st) (us ++ [.opening])
  | minus {st : List Pending} {us : List Symbol} (h : Awaited st us) :
      Awaited (.minus :: st) (us ++ [.sign .sub])
  | left {st : List Pending} {us ls : List Symbol} {s : Sign} {l : Tree} (h : Awaited st us)
      (hst : least st ≤ s.level) (hl : Written s.level ls l) :
      Awaited (.left s l :: st) (us ++ (ls ++ [.sign s]))

/-- Whether symbols can be the operand that is waited for: a number after a minus is taken together
with it. -/
def Apart (st : List Pending) (vs : List Symbol) : Prop :=
  st.head? = some .minus → ∀ n, vs ≠ [.number n]

theorem least_le (st : List Pending) : least st ≤ 3 := by
  unfold least
  split
  · next s _ _ => exact Nat.succ_le_succ s.level_le
  · exact le_rfl
  · exact Nat.zero_le 3

theorem reduce_written (hst : Awaited st us) (ht : Written k vs t) (hj : j ≤ k) (hj' : j ≤ 3)
    (hleast : least st ≤ k) (hapart : Apart st vs) :
    ∃ us' vs', us' ++ vs' = us ++ vs ∧ Awaited (reduce j t st).2 us' ∧
      Written j vs' (reduce j t st).1 ∧ least (reduce j t st).2 ≤ j := by
  -- a tree that has been completed is written at the level of its sign, which is as tight as what
  -- waits below asks for
  induction hst generalizing k vs t with
  | nil => exact ⟨[], vs, rfl, .nil, ht.mono hj, Nat.zero_le _⟩
  | opening h _ => exact ⟨_, vs, rfl, .opening h, ht.mono hj, Nat.zero_le _⟩
  | @minus st us h ih =>
    have hneg : Written 3 (.sign .sub :: vs) (.negative t) :=
      .negative le_rfl (ht.mono hleast) (hapart rfl)
    obtain ⟨us', vs', happend, h⟩ := ih hneg hj' (least_le st) (by simp [Apart])
    exact ⟨us', vs', by simp [happend], h⟩
  | @left st us ls s l h hst hl ih =>
    rw [reduce]
    split
    · next hs =>
      have hbin : Written s.level (ls ++ .sign s :: vs) (.binary s l t) :=
        .binary s le_rfl hl (ht.mono hleast)
      have hno : Apart st (ls ++ .sign s :: vs) := by
        intro hminus
        obtain ⟨st', rfl⟩ := List.head?_eq_some_iff.mp hminus
        have : 3 ≤ s.level := hst
        exact absurd s.level_le (by omega)
      obtain ⟨us', vs', happend, h⟩ := ih hbin hs hst hno
      exact ⟨us', vs', by simp [happend], h⟩
    · next hs => exact ⟨_, vs, rfl, .left h hst hl, ht.mono hj, by simp only [least]; omega⟩

def Reader.After (ts : List Symbol) : Reader → Prop
  | .operand st => Awaited st ts
  | .operator t st => ∃ us vs, us ++ vs = ts ∧ Awaited st us ∧ Written 3 vs t ∧ Apart st vs

theorem Reader.after_step {q q' : Reader} {x : Symbol} (hq : q.After ts) (h : q.step x = some q') :
    q'.After (ts ++ [x]) := by
  match q, x with
  | .operand st, .ref r =>
    obtain rfl := Option.some.inj h
    exact ⟨ts, _, rfl, hq, .ref 3 r, by simp [Apart]⟩
  | .operand st, .text s =>
    obtain rfl := Option.some.inj h
    exact ⟨ts, _, rfl, hq, .text 3 s, by simp [Apart]⟩
  | .operand st, .opening =>
    obtain rfl := Option.some.inj h
    exact .opening hq
  | .operand st, .sign .sub =>
    obtain rfl := Option.some.inj h
    exact .minus hq
  | .operand st, .number n =>
    obtain rfl := Option.some.inj h
    cases hq with
    | nil => exact ⟨[], _, rfl, .nil, .number 3 n, by simp [Apart]⟩
    | opening hst => exact ⟨_, _, rfl, .opening hst, .number 3 n, by simp [Apart]⟩
    | left hst hs hl => exact ⟨_, _, rfl, .left hst hs hl, .number 3 n, by simp [Apart]⟩
    | @minus st us hst => exact ⟨us, _, by simp, hst, .minus 3 n, by simp [Apart]⟩
  | .operator t st, .sign s =>
    obtain rfl := Option.some.inj h
    obtain ⟨us, vs, rfl, hst, ht, hapart⟩ := hq
    obtain ⟨us', vs', happend, hst', ht', hleast⟩ := reduce_written hst ht
      (s.level_le.trans (by decide)) (s.level_le.trans (by decide)) (least_le st) hapart
    rw [← happend, List.append_assoc]
    exact .left hst' hleast ht'
  | .operator t st, .closing =>
    obtain ⟨us, vs, rfl, hst, ht, hapart⟩ := hq
    obtain ⟨us', vs', happend, hst', ht', -⟩ := reduce_written hst ht (Nat.zero_le 3)
      (Nat.zero_le 3) (least_le st) hapart
    rw [Reader.step] at h
    split at h
    · next t' st' heq =>
      rw [heq] at hst' ht'
      obtain rfl := Option.some.inj h
      cases hst' with
      | @opening _ us hus =>
        refine ⟨us, .opening :: vs' ++ [.closing], ?_, hus, .group 3 ht', by simp [Apart]⟩
        simp [← happend]
    · cases h

theorem Reader.after_run {q q' : Reader} (hq : q.After ts) (h : vs.foldlM step q = some q') :
    q'.After (ts ++ vs) := by
  induction vs generalizing q ts with
  | nil =>
    obtain rfl := Option.some.inj h
    simpa using hq
  | cons x vs ih =>
    rw [List.foldlM_cons] at h
    obtain ⟨q₁, hx, h⟩ := Option.bind_eq_some_iff.mp h
    simpa using ih (after_step hq hx) h

theorem ofSymbols?_eq_some_iff : Tree.ofSymbols? ts = some t ↔ Written 0 ts t := by
  constructor
  · intro h
    obtain ⟨q, hrun, hq⟩ := Option.bind_eq_some_iff.mp h
    have hstart : Reader.After [] (.operand []) := Awaited.nil
    have hafter : q.After ([] ++ ts) := Reader.after_run hstart hrun
    match q with
    | .operand _ => cases hq
    | .operator u st =>
      obtain ⟨us, vs, happend, hst, hu, hapart⟩ := hafter
      obtain ⟨us', vs', happend', hst', hu', -⟩ := reduce_written hst hu (Nat.zero_le 3)
        (Nat.zero_le 3) (least_le st) hapart
      rw [Reader.finish] at hq
      split at hq
      · next v heq =>
        obtain rfl := Option.some.inj hq
        rw [heq] at hst' hu'
        cases hst'
        have hts : vs' = ts := by simpa [happend] using happend'
        exact hts ▸ hu'
      · cases hq
  · intro h
    obtain ⟨u, p, hreduce, hrun⟩ := h.run
    have hfinish : Reader.finish (.operator u (p ++ [])) = some t := by
      simp only [Reader.finish, hreduce 0 le_rfl, reduce]
    rw [Tree.ofSymbols?, hrun [] trivial (by simp)]
    exact hfinish

namespace Lexeme

def Ready (l : Lexeme) : Prop :=
  ∀ c, isReference c = true ∨ c = '"' ∨ c = '(' ∨ c = '-' → l.extend? c = none

def Ended (l : Lexeme) : Prop := ∀ c ∈ [')', '+', '-', '*', '/', '=', '<', '>'], l.extend? c = none

theorem ready_blank : Ready .blank := fun _ _ ↦ rfl

theorem ready_opening : Ready (.symbol .opening) := fun _ _ ↦ rfl

theorem ready_sign (s : Sign) : Ready (.symbol (.sign s)) := by
  intro c hc
  have hne : c ≠ '=' ∧ c ≠ '>' := by
    rcases hc with hc | rfl | rfl | rfl
    · exact ⟨fun h ↦ by simp [h, isReference, Text.isWord] at hc,
        fun h ↦ by simp [h, isReference, Text.isWord] at hc⟩
    all_goals decide
  cases s <;> simp [extend?, hne]

theorem ended_word (w : List Char) : Ended (.word w) := by
  simp [Ended, extend?, isReference, Text.isWord]

theorem ended_text (s : List Char) : Ended (.text s) := by simp [Ended, extend?]

theorem ended_closing : Ended (.symbol .closing) := fun _ _ ↦ rfl

end Lexeme

namespace Cut

variable {q q' : Cut} {c : Char} {l m : Lexeme}

theorem step_of_stop (hq : q.finish = some us) (hc : q.current.extend? c = none)
    (hl : Lexeme.begin? c = some l) : q.step c = some ⟨us, l⟩ := by
  obtain ⟨more, hmore, rfl⟩ := Option.map_eq_some_iff.mp hq
  simp [step, hc, hmore, hl]

theorem step_of_extend (hc : l.extend? c = some m) : step ⟨us, l⟩ c = some ⟨us, m⟩ := by
  simp [step, hc]

theorem run_word {v : List Char} (w : List Char) (h : ∀ c ∈ v, isReference c = true) :
    v.foldlM step ⟨us, .word w⟩ = some ⟨us, .word (w ++ v)⟩ := by
  induction v generalizing w with
  | nil => simp
  | cons c v ih =>
    have hc : Lexeme.extend? (.word w) c = some (.word (w ++ [c])) := if_pos (h c (by simp))
    rw [List.foldlM_cons, step_of_extend hc]
    simpa using ih (w ++ [c]) fun d hd ↦ h d (by simp [hd])

theorem run_quoted {v : List Char} (s : List Char) (h : '"' ∉ v) :
    v.foldlM step ⟨us, .quoted s⟩ = some ⟨us, .quoted (s ++ v)⟩ := by
  induction v generalizing s with
  | nil => simp
  | cons c v ih =>
    have hc : Lexeme.extend? (.quoted s) c = some (.quoted (s ++ [c])) := by
      simp [Lexeme.extend?, (List.ne_of_not_mem_cons h).symm]
    rw [List.foldlM_cons, step_of_extend hc]
    simpa using ih (s ++ [c]) (List.not_mem_of_not_mem_cons h)

end Cut

/-- Whether characters are cut into these symbols, wherever an operand can begin. -/
def Cuts (cs : List Char) (ts : List Symbol) : Prop :=
  ∀ (q : Cut) (us : List Symbol), q.finish = some us → q.current.Ready →
    ∃ q', cs.foldlM Cut.step q = some q' ∧ q'.finish = some (us ++ ts) ∧ q'.current.Ended

namespace Cuts

variable {cs ds : List Char}

theorem word {w : List Char} (hne : w ≠ []) (hw : ∀ c ∈ w, isReference c = true) :
    Cuts w [if w.all Char.isDigit then .number (Nat.ofDigitChars 10 w 0)
      else .ref (String.ofList w)] := by
  intro q us hq hready
  obtain ⟨c, w, rfl⟩ := List.exists_cons_of_ne_nil hne
  have hc : isReference c = true := hw c (by simp)
  have hfirst : q.step c = some ⟨us, .word [c]⟩ :=
    Cut.step_of_stop hq (hready c (.inl hc)) (if_pos hc)
  refine ⟨⟨us, .word (c :: w)⟩, ?_, rfl, Lexeme.ended_word _⟩
  rw [List.foldlM_cons, hfirst]
  exact Cut.run_word [c] fun d hd ↦ hw d (by simp [hd])

theorem text {s : String} (h : '"' ∉ s.toList) : Cuts ('"' :: s.toList ++ ['"']) [.text s] := by
  intro q us hq hready
  have hfirst : q.step '"' = some ⟨us, .quoted []⟩ :=
    Cut.step_of_stop hq (hready '"' (.inr (.inl rfl))) rfl
  have hlast : Cut.step ⟨us, .quoted s.toList⟩ '"' = some ⟨us, .text s.toList⟩ :=
    Cut.step_of_extend rfl
  refine ⟨⟨us, .text s.toList⟩, ?_, by simp [Cut.finish, Lexeme.symbols?], Lexeme.ended_text _⟩
  simp [hfirst, List.foldlM_append, Cut.run_quoted [] h, hlast]

theorem group (h : Cuts cs ts) : Cuts ('(' :: cs ++ [')']) (.opening :: ts ++ [.closing]) := by
  intro q us hq hready
  have hfirst : q.step '(' = some ⟨us, .symbol .opening⟩ :=
    Cut.step_of_stop hq (hready '(' (.inr (.inr (.inl rfl)))) rfl
  obtain ⟨q', hrun, hq', hended⟩ := h ⟨us, .symbol .opening⟩ _ rfl Lexeme.ready_opening
  have hlast : q'.step ')' = some ⟨us ++ [.opening] ++ ts, .symbol .closing⟩ :=
    Cut.step_of_stop hq' (hended ')' (by simp)) rfl
  refine ⟨⟨us ++ [.opening] ++ ts, .symbol .closing⟩, ?_, ?_, Lexeme.ended_closing⟩
  · simp [hfirst, List.foldlM_append, hrun, hlast]
  · simp [Cut.finish, Lexeme.symbols?]

theorem minus (h : Cuts cs ts) : Cuts ('-' :: cs) (.sign .sub :: ts) := by
  intro q us hq hready
  have hfirst : q.step '-' = some ⟨us, .symbol (.sign .sub)⟩ :=
    Cut.step_of_stop hq (hready '-' (by simp)) rfl
  obtain ⟨q', hrun, hq', hended⟩ := h ⟨us, .symbol (.sign .sub)⟩ _ rfl (Lexeme.ready_sign .sub)
  exact ⟨q', by simp [hfirst, hrun], by simpa using hq', hended⟩

theorem run_sign {q : Cut} (s : Sign) (hq : q.finish = some us) (hended : q.current.Ended) :
    s.chars.foldlM Cut.step q = some ⟨us, .symbol (.sign s)⟩ := by
  have hlt : q.step '<' = some ⟨us, .symbol (.sign .lt)⟩ :=
    Cut.step_of_stop hq (hended '<' (by simp)) rfl
  have hgt : q.step '>' = some ⟨us, .symbol (.sign .gt)⟩ :=
    Cut.step_of_stop hq (hended '>' (by simp)) rfl
  cases s with
  | lt | ne | le =>
    rw [Sign.chars, List.foldlM_cons, hlt]
    rfl
  | gt | ge =>
    rw [Sign.chars, List.foldlM_cons, hgt]
    rfl
  | _ =>
    rw [Sign.chars, List.foldlM_cons, Cut.step_of_stop hq (hended _ (by simp)) rfl]
    rfl

theorem join (h : Cuts cs ts) (s : Sign) (h' : Cuts ds vs) :
    Cuts (cs ++ (s.chars ++ ds)) (ts ++ .sign s :: vs) := by
  intro q us hq hready
  obtain ⟨q₁, hrun, hq₁, hended⟩ := h q us hq hready
  obtain ⟨q₂, hrun', hq₂, hended'⟩ :=
    h' ⟨us ++ ts, .symbol (.sign s)⟩ _ rfl (Lexeme.ready_sign s)
  refine ⟨q₂, ?_, by simpa using hq₂, hended'⟩
  simp [List.foldlM_append, hrun, run_sign s hq₁ hended, hrun']

theorem symbols? {s : String} (h : Cuts s.toList ts) : Formula.symbols? s = some ts := by
  obtain ⟨q, hrun, hq, -⟩ := h ⟨[], .blank⟩ [] rfl Lexeme.ready_blank
  rw [Formula.symbols?, hrun]
  exact hq

end Cuts

def marksOf (s : List Char) : Nat := 2 + 2 * s.count '"'

def Symbol.marks : Symbol → Nat
  | .text s => marksOf s.toList
  | _ => 0

def Lexeme.marks : Lexeme → Nat
  | .quoted s => 1 + 2 * s.count '"'
  | .text s => marksOf s
  | .symbol s => s.marks
  | _ => 0

def Tree.marks : Tree → Nat
  | .text s => marksOf s.toList
  | .negative t => t.marks
  | .binary _ l r => l.marks + r.marks
  | _ => 0

def Cut.marks (q : Cut) : Nat := (q.done.map Symbol.marks).sum + q.current.marks

theorem ne_quote_of_isReference {c : Char} (h : isReference c = true) : c ≠ '"' := by
  rintro rfl
  simp [isReference, Text.isWord] at h

theorem Lexeme.marks_extend? {l m : Lexeme} {c : Char} (h : l.extend? c = some m) :
    m.marks = l.marks + [c].count '"' := by
  unfold extend? at h
  split at h
  · split_ifs at h with hc
    cases h
    simp [marks, ne_quote_of_isReference hc]
  · cases h
    by_cases hc : c = '"'
    · subst hc
      simp [marks, marksOf]
      omega
    · simp [marks, hc]
  · split_ifs at h with hc
    cases h
    subst hc
    simp [marks, marksOf]
    omega
  · split_ifs at h with hc hc' <;> cases h <;> subst c <;> rfl
  · split_ifs at h with hc
    cases h
    subst hc
    rfl
  · cases h

theorem Lexeme.marks_begin? {l : Lexeme} {c : Char} (h : begin? c = some l) :
    l.marks = [c].count '"' := by
  unfold begin? at h
  split_ifs at h with hc
  · cases h
    simp [marks, ne_quote_of_isReference hc]
  · split at h <;> cases h <;> rfl

theorem Lexeme.marks_symbols? {l : Lexeme} (h : l.symbols? = some ts) :
    (ts.map Symbol.marks).sum = l.marks := by
  cases l with
  | blank => obtain rfl := Option.some.inj h; rfl
  | word w =>
    obtain rfl := Option.some.inj h
    by_cases hw : w.all Char.isDigit = true
    · simp [hw, Symbol.marks, marks]
    · simp [hw, Symbol.marks, marks]
  | quoted s => cases h
  | text s => obtain rfl := Option.some.inj h; simp [Symbol.marks, marks]
  | symbol s => obtain rfl := Option.some.inj h; simp [marks]

theorem Cut.marks_step {q q' : Cut} {c : Char} (h : q.step c = some q') :
    q'.marks = q.marks + [c].count '"' := by
  unfold step at h
  split at h
  · next l hl =>
    obtain rfl := Option.some.inj h
    simp only [marks, Lexeme.marks_extend? hl, Nat.add_assoc]
  · obtain ⟨more, hmore, h⟩ := Option.bind_eq_some_iff.mp h
    obtain ⟨l, hl, h⟩ := Option.bind_eq_some_iff.mp h
    obtain rfl := Option.some.inj h
    simp only [marks, List.map_append, List.sum_append, Lexeme.marks_symbols? hmore,
      Lexeme.marks_begin? hl]

theorem Cut.marks_run {q q' : Cut} {cs : List Char} (h : cs.foldlM step q = some q') :
    q'.marks = q.marks + cs.count '"' := by
  induction cs generalizing q with
  | nil =>
    obtain rfl := Option.some.inj h
    simp
  | cons c cs ih =>
    rw [List.foldlM_cons] at h
    obtain ⟨q₁, hc, h⟩ := Option.bind_eq_some_iff.mp h
    rw [ih h, marks_step hc, Nat.add_assoc, ← List.count_append, List.singleton_append]

theorem Written.marks (h : Written k ts t) : (ts.map Symbol.marks).sum = t.marks := by
  induction h with
  | ref | number | minus | text => simp [Symbol.marks, Tree.marks]
  | group _ _ ih => simpa [Symbol.marks] using ih
  | negative _ _ _ ih => simpa [Symbol.marks, Tree.marks] using ih
  | binary s _ _ _ ihl ihr => simp [Symbol.marks, Tree.marks, ihl, ihr]

theorem count_of_ofText? {s : String} (h : Tree.ofText? s = some t) :
    s.toList.count '"' = t.marks := by
  obtain ⟨ts, hts, ht⟩ := Option.bind_eq_some_iff.mp h
  obtain ⟨q, hrun, hq⟩ := Option.bind_eq_some_iff.mp hts
  obtain ⟨more, hmore, rfl⟩ := Option.map_eq_some_iff.mp hq
  have hcut := Cut.marks_run hrun
  rw [← (ofSymbols?_eq_some_iff.mp ht).marks, List.map_append, List.sum_append,
    Lexeme.marks_symbols? hmore]
  simpa [Cut.marks, Lexeme.marks] using hcut.symm

end Gridplan.Formula
