import Gridplan.Formula.Block
import Mathlib.Tactic

namespace Gridplan.Formula

variable {ps : List (Term × Term)}

namespace Term

mutual

def calls : Term → List (String × List Term)
  | .call f args => (f, args) :: callsList args
  | .binary _ l r => calls l ++ calls r
  | .negative t => calls t
  | .group t => calls t
  | .beside ts => callsList ts
  | .stacked ts => callsList ts
  | _ => []

def callsList : List Term → List (String × List Term)
  | [] => []
  | t :: ts => calls t ++ callsList ts

end

theorem callsList_eq (ts : List Term) : callsList ts = ts.flatMap calls := by
  induction ts with
  | nil => rfl
  | cons t ts ih => rw [callsList, ih, List.flatMap_cons]

def isRange : Term → Bool
  | .ref r => r.last.isSome
  | .call "ROW" [.ref r] => r.last.isSome
  | _ => false

def isCell : Term → Bool
  | .ref r => r.last.isNone
  | .call "ROW" [.ref r] => r.last.isNone
  | _ => false

/-- What the cells of a range are compared with: a value, which they have to equal, or a sign in
front of a value. -/
def isCriterion : Term → Bool
  | .binary "&" (.quoted sign) t => ["<", "<=", ">", ">="].contains sign && t.isCell
  | t => t.isCell

end Term

def pairArgs (ps : List (Term × Term)) : List Term := ps.flatMap fun p ↦ [p.1, p.2]

def pairs? : List Term → Option (List (Term × Term))
  | [] => some []
  | [_] => none
  | r :: c :: rest => (pairs? rest).map ((r, c) :: ·)

@[simp] theorem pairs?_pairArgs (ps : List (Term × Term)) : pairs? (pairArgs ps) = some ps := by
  induction ps with
  | nil => rfl
  | cons p ps ih =>
    rw [pairArgs, List.flatMap_cons, List.cons_append, List.cons_append, List.nil_append, pairs?,
      ← pairArgs, ih]
    rfl

theorem pairArgs_append (ps qs : List (Term × Term)) :
    pairArgs ps ++ pairArgs qs = pairArgs (ps ++ qs) := by
  simp [pairArgs]

@[simp] theorem pairArgs_eq_nil : pairArgs ps = [] ↔ ps = [] := by
  cases ps <;> simp [pairArgs]

def Proper (ps : List (Term × Term)) : Prop :=
  ∀ p ∈ ps, p.1.isRange = true ∧ p.2.isCriterion = true

theorem Proper.append {ps qs : List (Term × Term)} (hp : Proper ps) (hq : Proper qs) :
    Proper (ps ++ qs) := List.forall_mem_append.mpr ⟨hp, hq⟩

/-- Whether arguments are one or more pairs of a range and a criterion. -/
def arePairs (args : List Term) : Bool :=
  (pairs? args).any fun ps ↦ !ps.isEmpty && ps.all fun p ↦ p.1.isRange && p.2.isCriterion

def aggregators : List String := ["SUMIFS", "AVERAGEIFS", "MINIFS", "MAXIFS"]

/-- Whether the arguments of a function are as they have to be, if it is a conditional one. -/
def isProper (func : String) (args : List Term) : Bool :=
  if func = "COUNTIFS" then arePairs args
  else if func ∈ aggregators then
    match args with
    | [] => false
    | values :: rest => values.isRange && arePairs rest
  else true

/-- Whether all calls of conditional functions in a term are as they have to be. -/
def Term.isSound (t : Term) : Bool := t.calls.all fun c ↦ isProper c.1 c.2

theorem arePairs_pairArgs (ps : List (Term × Term)) :
    arePairs (pairArgs ps) = (!ps.isEmpty && ps.all fun p ↦ p.1.isRange && p.2.isCriterion) := by
  simp [arePairs]

theorem pairs?_cons_pairArgs (t : Term) (ps : List (Term × Term)) :
    pairs? (t :: pairArgs ps) = none := by
  induction ps generalizing t with
  | nil => rfl
  | cons p ps ih =>
    rw [pairArgs, List.flatMap_cons, List.cons_append, List.cons_append, List.nil_append, pairs?,
      ← pairArgs, ih]
    rfl

section Sound

variable {t u : Term} {args : List Term}

@[simp] theorem isSound_ref (r : Ref) : (Term.ref r).isSound = true := rfl

@[simp] theorem isSound_int (n : Int) : (Term.int n).isSound = true := rfl

@[simp] theorem isSound_quoted (s : String) : (Term.quoted s).isSound = true := rfl

@[simp] theorem isSound_text (s : String) : (Term.text s).isSound = true := rfl

@[simp] theorem isSound_woven (s : String) (rs : List Ref) : (Term.woven s rs).isSound = true := rfl

@[simp] theorem isSound_group : (Term.group t).isSound = t.isSound := rfl

@[simp] theorem isSound_binary (op : String) :
    (Term.binary op t u).isSound = (t.isSound && u.isSound) := by
  simp [Term.isSound, Term.calls]

@[simp] theorem isSound_call (f : String) :
    (Term.call f args).isSound = (isProper f args && args.all Term.isSound) := by
  rw [Term.isSound, Term.calls, Term.callsList_eq, List.all_cons, List.all_flatMap]
  rfl

@[simp] theorem isSound_beside : (Term.beside args).isSound = args.all Term.isSound := by
  rw [Term.isSound, Term.calls, Term.callsList_eq, List.all_flatMap]
  rfl

theorem isSound_of_isRange (h : t.isRange = true) : t.isSound = true := by
  unfold Term.isRange at h
  split at h <;> simp_all [isProper, aggregators]

theorem isSound_of_isCell (h : t.isCell = true) : t.isSound = true := by
  unfold Term.isCell at h
  split at h <;> simp_all [isProper, aggregators]

theorem isSound_of_isCriterion (h : t.isCriterion = true) : t.isSound = true := by
  unfold Term.isCriterion at h
  split at h
  · simpa using isSound_of_isCell (Bool.and_eq_true_iff.mp h).2
  · exact isSound_of_isCell h

theorem all_isSound_pairArgs (h : Proper ps) : (pairArgs ps).all Term.isSound = true := by
  simp only [pairArgs, List.all_flatMap, List.all_cons, List.all_nil, Bool.and_true,
    List.all_eq_true, Bool.and_eq_true]
  exact fun p hp ↦ ⟨isSound_of_isRange (h p hp).1, isSound_of_isCriterion (h p hp).2⟩

theorem isSound_counting (h : Proper ps) :
    (Term.call "COUNTIFS" (pairArgs ps)).isSound = true ↔ ps ≠ [] := by
  have hall : (ps.all fun p ↦ p.1.isRange && p.2.isCriterion) = true := by
    simpa [Proper] using h
  simp [isProper, arePairs_pairArgs, all_isSound_pairArgs h, hall]

theorem isSound_aggregating {f : String} (hf : f ∈ aggregators) (ht : t.isRange = true)
    (h : Proper ps) : (Term.call f (t :: pairArgs ps)).isSound = true ↔ ps ≠ [] := by
  have hall : (ps.all fun p ↦ p.1.isRange && p.2.isCriterion) = true := by
    simpa [Proper] using h
  have hcount : f ≠ "COUNTIFS" := by
    rintro rfl
    simp [aggregators] at hf
  simp [isProper, arePairs_pairArgs, all_isSound_pairArgs h, isSound_of_isRange ht, hall, hf, hcount,
    ht]

end Sound

end Gridplan.Formula
