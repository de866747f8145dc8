import Gridplan.Formula.Block
import Gridplan.Proofs.Outcome

namespace Gridplan.Formula

open Outcome (Ensures)

variable {good : Ref → Prop}

def Ref.corners (r : Ref) : List Corner := r.first :: r.last.toList

namespace Term

variable {t : Term} {ts : List Term} {op : String}

def Every (good : Ref → Prop) (t : Term) : Prop := ∀ r ∈ t.refs, good r

def Within (names : List String) (t : Term) : Prop := ∀ r ∈ t.refs, ∀ s ∈ r.sheet, s ∈ names

@[simp] theorem every_ref {r : Ref} : (ref r).Every good ↔ good r := by simp [Every, refs]

@[simp] theorem every_woven {s : String} {rs : List Ref} :
    (woven s rs).Every good ↔ ∀ r ∈ rs, good r := by
  simp [Every, refs]

@[simp] theorem every_int (n : Int) : (int n).Every good := by simp [Every, refs]

@[simp] theorem every_quoted (s : String) : (quoted s).Every good := by simp [Every, refs]

@[simp] theorem every_text (s : String) : (text s).Every good := by simp [Every, refs]

theorem every_flatMap : (∀ r ∈ ts.flatMap refs, good r) ↔ ∀ t ∈ ts, t.Every good := by
  simp only [List.mem_flatMap, Every]
  constructor
  · exact fun h t ht r hr ↦ h r ⟨t, ht, hr⟩
  · rintro h r ⟨t, ht, hr⟩
    exact h t ht r hr

@[simp] theorem every_call {f : String} {args : List Term} :
    (call f args).Every good ↔ ∀ t ∈ args, t.Every good := by
  rw [Every, refs_call, every_flatMap]

@[simp] theorem every_binary {l r : Term} :
    (binary op l r).Every good ↔ l.Every good ∧ r.Every good := by
  simp only [Every, refs, List.mem_append, or_imp, forall_and]

@[simp] theorem every_negative : (negative t).Every good ↔ t.Every good := by
  simp only [Every, refs]

@[simp] theorem every_group : (group t).Every good ↔ t.Every good := by
  simp only [Every, refs]

@[simp] theorem every_beside : (beside ts).Every good ↔ ∀ t ∈ ts, t.Every good := by
  rw [Every, refs, refsList_eq, every_flatMap]

@[simp] theorem every_stacked : (stacked ts).Every good ↔ ∀ t ∈ ts, t.Every good := by
  rw [Every, refs, refsList_eq, every_flatMap]

@[simp] theorem every_join {us : List Term} :
    (join op t us).Every good ↔ t.Every good ∧ ∀ u ∈ us, u.Every good := by
  induction us generalizing t with
  | nil => simp [join]
  | cons u us ih => simp [join, ih, and_assoc]

theorem Every.mono {other : Ref → Prop} (h : t.Every good) (hsub : ∀ r, good r → other r) :
    t.Every other := fun r hr ↦ hsub r (h r hr)

theorem Within.mono {names others : List String} (h : t.Within names) (hsub : names ⊆ others) :
    t.Within others := fun r hr s hs ↦ hsub (h r hr s hs)

end Term

theorem position_lt (schema : List String) (name : String) :
    Ensures (position schema name) fun i ↦ i < schema.length := by
  unfold position
  split
  · next i hi => exact .ok (List.idxOf?_eq_some_iff.mp hi).1
  · exact .error _

namespace Block

variable {b : Block}

theorem sheet_of_mem_upTo {first : Corner} {col : Nat} {number : Extent} {r : Ref}
    (h : r ∈ (b.upTo first col number).refs) : r.sheet = some b.sheet := by
  cases number <;> (obtain rfl : r = _ := by simpa [upTo, Term.refs] using h) <;> rfl

theorem sheet_of_mem_body {r : Ref} (h : r ∈ b.body.refs) : r.sheet = some b.sheet := by
  rw [body] at h
  split at h
  · obtain rfl : r = _ := by simpa [Term.refs] using h
    rfl
  · exact sheet_of_mem_upTo h

def Columns (good : Ref → Prop) (b : Block) : Prop :=
  ∀ i < b.schema.length, (b.columnAt i).Every good

theorem every_column (hb : b.Columns good) (n : String) : Ensures (b.column n) (Term.Every good) :=
  (position_lt b.schema n).bind fun i hi ↦ .ok (hb i hi)

mutual

theorem every_expression (hb : b.Columns good) (e : Expr) :
    Ensures (b.expression e) (Term.Every good) := by
  cases e with
  | column n =>
    rw [expression]
    exact every_column hb n
  | literal v =>
    cases v <;> exact .ok (by simp)
  | binary op l r =>
    rw [expression]
    refine (every_expression hb l).bind fun t ht ↦ (every_expression hb r).bind fun u hu ↦ ?_
    split <;> exact .ok (by simp [ht, hu])
  | unary op e =>
    rw [expression]
    refine (every_expression hb e).bind fun t ht ↦ ?_
    split
    · exact .ok (by simp [ht])
    · split <;> exact .ok (by simp [ht])
  | call f args =>
    rw [expression]
    exact (every_expressionList hb args).bind fun ts hts ↦ .ok (by simpa using hts)
  | verbatim t => exact .ok (by simp)
  | raw d => exact .ok (by simp)

theorem every_expressionList (hb : b.Columns good) (es : List Expr) :
    Ensures (b.expressionList es) fun ts ↦ ∀ t ∈ ts, t.Every good := by
  cases es with
  | nil => exact .ok (by simp)
  | cons e es =>
    rw [expressionList]
    refine (every_expression hb e).bind fun t ht ↦ (every_expressionList hb es).bind fun ts hts ↦ ?_
    exact .ok (List.forall_mem_cons.mpr ⟨ht, hts⟩)

end

theorem every_condition (hb : b.Columns good) (e : Expr) :
    Ensures (b.condition e) (Term.Every good) := by
  unfold condition
  split
  · exact .error _
  · exact .error _
  · exact every_expression hb _

end Block

end Gridplan.Formula
