import Gridplan.Proofs.Relation.Meaning

namespace Gridplan

structure Ranking (α : Type) where
  le : α → α → Bool
  trans : ∀ a b c, le a b = true → le b c = true → le a c = true
  total : ∀ a b, (le a b || le b a) = true

namespace Ranking

variable {α β : Type} {r s : Ranking α} {l l' : List α} {a b c : α}

def ties (r : Ranking α) (a b : α) : Bool := r.le a b && r.le b a

def sort (r : Ranking α) (l : List α) : List α := l.mergeSort r.le

def indifferent : Ranking α where
  le _ _ := true
  trans _ _ _ _ _ := rfl
  total _ _ := rfl

def comap (r : Ranking β) (f : α → β) : Ranking α where
  le a b := r.le (f a) (f b)
  trans a b c := r.trans (f a) (f b) (f c)
  total a b := r.total (f a) (f b)

def thenBy (r s : Ranking α) : Ranking α where
  le a b := r.le a b && (!r.le b a || s.le a b)
  trans a b c := by
    simp only [Bool.and_eq_true, Bool.or_eq_true, Bool.not_eq_true']
    rintro ⟨hab, hab'⟩ ⟨hbc, hbc'⟩
    refine ⟨r.trans a b c hab hbc, ?_⟩
    cases hca : r.le c a with
    | false => exact .inl rfl
    | true =>
      -- all three tie, so the second ranking decides both comparisons
      have hba := r.trans b c a hbc hca
      have hcb := r.trans c a b hca hab
      simp only [hba, hcb, Bool.true_eq_false, false_or] at hab' hbc'
      exact .inr (s.trans a b c hab' hbc')
  total a b := by
    have hr := r.total a b
    have hs := s.total a b
    cases hab : r.le a b <;> cases hba : r.le b a <;> simp_all

theorem le_refl (r : Ranking α) (a : α) : r.le a a = true := by
  simpa using r.total a a

theorem ties_iff : r.ties a b = true ↔ r.le a b = true ∧ r.le b a = true := by
  simp [ties]

theorem ties_refl (r : Ranking α) (a : α) : r.ties a a = true := ties_iff.mpr ⟨r.le_refl a, r.le_refl a⟩

theorem le_of_ties (hb : r.ties a b = true) (hc : r.ties a c = true) : r.le b c = true :=
  r.trans _ _ _ (ties_iff.mp hb).2 (ties_iff.mp hc).1

theorem ties_of_ties (hb : r.ties a b = true) (hc : r.ties a c = true) : r.ties b c = true :=
  ties_iff.mpr ⟨le_of_ties hb hc, le_of_ties hc hb⟩

theorem ties_thenBy : (r.thenBy s).ties a b = true ↔ r.ties a b = true ∧ s.ties a b = true := by
  simp only [ties, thenBy]
  cases r.le a b <;> cases r.le b a <;> simp

theorem sort_perm (r : Ranking α) (l : List α) : (r.sort l).Perm l := List.mergeSort_perm l r.le

theorem pairwise_sort (r : Ranking α) (l : List α) : (r.sort l).Pairwise fun a b ↦ r.le a b = true :=
  List.pairwise_mergeSort r.trans r.total l

theorem sort_eq_self (h : l.Pairwise fun a b ↦ r.le a b = true) : r.sort l = l :=
  List.mergeSort_of_pairwise h

theorem filter_sort {p : α → Bool} (h : (l.filter p).Pairwise fun a b ↦ r.le a b = true) :
    (r.sort l).filter p = l.filter p := by
  have hsub : (l.filter p).Sublist (r.sort l) :=
    List.sublist_mergeSort r.trans r.total h List.filter_sublist
  have hlen : (l.filter p).length = ((r.sort l).filter p).length :=
    ((r.sort_perm l).filter p).length_eq.symm
  refine (List.Sublist.eq_of_length ?_ hlen).symm
  simpa using hsub.filter p

theorem filter_sort_ties (r : Ranking α) (l : List α) (a : α) :
    (r.sort l).filter (r.ties a) = l.filter (r.ties a) := by
  refine filter_sort (List.pairwise_of_forall_mem_list fun b hb c hc ↦ ?_)
  exact le_of_ties (List.mem_filter.mp hb).2 (List.mem_filter.mp hc).2

theorem eq_of_filter_ties (h : l.Pairwise fun a b ↦ r.le a b = true)
    (h' : l'.Pairwise fun a b ↦ r.le a b = true)
    (hf : ∀ a, l.filter (r.ties a) = l'.filter (r.ties a)) : l = l' := by
  have hmem : ∀ a, a ∈ l ↔ a ∈ l' := fun a ↦ by
    simpa [r.ties_refl a] using congrArg (a ∈ ·) (hf a)
  induction l generalizing l' with
  | nil => exact (List.eq_nil_iff_forall_not_mem.mpr fun a ha ↦ by simpa using (hmem a).mpr ha).symm
  | cons a t ih =>
    cases l' with
    | nil => simpa using (hmem a).mp (by simp)
    | cons b t' =>
      have hab : r.le a b = true := by
        rcases List.mem_cons.mp ((hmem b).mpr (by simp)) with rfl | hb
        · exact r.le_refl b
        · exact (List.pairwise_cons.mp h).1 b hb
      have hba : r.le b a = true := by
        rcases List.mem_cons.mp ((hmem a).mp (by simp)) with rfl | ha
        · exact r.le_refl a
        · exact (List.pairwise_cons.mp h').1 a ha
      -- the heads tie, and each is the first of its ties
      have hhead := hf a
      rw [List.filter_cons_of_pos (r.ties_refl a),
        List.filter_cons_of_pos (ties_iff.mpr ⟨hab, hba⟩), List.cons.injEq] at hhead
      obtain ⟨rfl, -⟩ := hhead
      have htail : ∀ c, t.filter (r.ties c) = t'.filter (r.ties c) := by
        intro c
        have hc := hf c
        rw [List.filter_cons, List.filter_cons] at hc
        split at hc
        · exact (List.cons.inj hc).2
        · exact hc
      refine congrArg _ (ih (List.pairwise_cons.mp h).2 (List.pairwise_cons.mp h').2 htail fun c ↦ ?_)
      simpa [r.ties_refl c] using congrArg (c ∈ ·) (htail c)

theorem map_sort_comap (r : Ranking β) (f : α → β) (l : List α) :
    ((r.comap f).sort l).map f = r.sort (l.map f) :=
  List.map_mergeSort fun _ _ _ _ ↦ rfl

theorem pairwise_ties_sort {R : α → α → Prop} (h : l.Pairwise R) :
    (r.sort l).Pairwise fun a b ↦ r.ties a b = true → R a b := by
  refine List.pairwise_iff_forall_sublist.mpr fun {a b} hab htie ↦ ?_
  have hsub := hab.filter (r.ties a)
  rw [filter_sort_ties, List.filter_cons_of_pos (r.ties_refl a),
    List.filter_cons_of_pos htie] at hsub
  exact List.pairwise_iff_forall_sublist.mp h (hsub.trans List.filter_sublist)

theorem sort_sort (r s : Ranking α) (l : List α) : r.sort (s.sort l) = (r.thenBy s).sort l := by
  refine eq_of_filter_ties (r := r.thenBy s) ?_ (pairwise_sort _ l) fun a ↦ ?_
  · refine ((r.pairwise_sort _).and (pairwise_ties_sort (s.pairwise_sort l))).imp fun {a b} hab ↦ ?_
    cases hba : r.le b a with
    | false => simp [thenBy, hab.1, hba]
    | true => simp [thenBy, hab.1, hab.2 (ties_iff.mpr ⟨hab.1, hba⟩)]
  · have hties : (r.thenBy s).ties a = fun b ↦ r.ties a b && s.ties a b :=
      funext fun b ↦ Bool.eq_iff_iff.mpr (by rw [ties_thenBy, Bool.and_eq_true])
    rw [filter_sort_ties, hties]
    simp only [← List.filter_filter]
    rw [List.filter_comm, filter_sort_ties, List.filter_comm, filter_sort_ties]

/-- An earlier sort shows after a later one, unless what ties in the later one was in the order of
the earlier one from the start. -/
theorem sort_sort_iff : s.sort (r.sort l) = s.sort l ↔
    l.Pairwise fun a b ↦ s.ties a b = true → r.le a b = true := by
  constructor
  · intro h
    have hclass : ∀ a, (l.filter (s.ties a)).Pairwise fun b c ↦ r.le b c = true := by
      intro a
      rw [← filter_sort_ties, ← h, filter_sort_ties]
      exact (r.pairwise_sort l).filter _
    refine List.pairwise_iff_forall_sublist.mpr fun {a b} hab htie ↦ ?_
    have hsub := hab.filter (s.ties a)
    rw [List.filter_cons_of_pos (s.ties_refl a), List.filter_cons_of_pos htie] at hsub
    exact List.pairwise_iff_forall_sublist.mp (hclass a) hsub
  · intro h
    refine eq_of_filter_ties (s.pairwise_sort _) (s.pairwise_sort _) fun a ↦ ?_
    rw [filter_sort_ties, filter_sort_ties]
    refine filter_sort ((h.filter _).imp_of_mem fun hb hc hle ↦ hle ?_)
    exact ties_of_ties (List.mem_filter.mp hb).2 (List.mem_filter.mp hc).2

end Ranking

namespace Relation

variable {A : Algebra} {R S : Relation} {C : Direction → Ranking Datum} {keys : List SortKey}

def order (C : Direction → Ranking Datum) (columns : List String) :
    List SortKey → Ranking (List Datum)
  | [] => .indifferent
  | k :: ks => ((C k.direction).comap fun row ↦ cell columns row k.column).thenBy (order C columns ks)

def arrange (C : Direction → Ranking Datum) (keys : List SortKey) (R : Relation) : Option Relation :=
  if ∀ k ∈ keys, k.column ∈ R.columns then some ⟨R.columns, (order C R.columns keys).sort R.rows⟩
  else none

def restrictIf (A : Algebra) : Option Expr → Relation → Option Relation
  | none, R => some R
  | some e, R => R.restrict A e

def first (n : Int) (R : Relation) : Relation := ⟨R.columns, R.rows.take n.toNat⟩

def final (n : Int) (R : Relation) : Relation := ⟨R.columns, R.rows.drop (R.rows.length - n.toNat)⟩

def capped : Option Int → Relation → Relation
  | none, R => R
  | some n, R => R.first n

theorem arrange_eq_some : R.arrange C keys = some S ↔ (∀ k ∈ keys, k.column ∈ R.columns) ∧
    S = ⟨R.columns, (order C R.columns keys).sort R.rows⟩ := by
  simp only [arrange]
  split <;> simp_all [eq_comm]

theorem order_ties {columns : List String} {a b : List Datum} :
    (order C columns keys).ties a b = true ↔ ∀ k ∈ keys,
      (C k.direction).ties (cell columns a k.column) (cell columns b k.column) = true := by
  induction keys with
  | nil => simp [order, Ranking.ties, Ranking.indifferent]
  | cons k ks ih =>
    rw [order, Ranking.ties_thenBy, ih, List.forall_mem_cons]
    rfl

theorem order_le_of_ties {keys' : List SortKey} {columns : List String} {a b : List Datum}
    (h : keys' ⊆ keys) (ht : (order C columns keys).ties a b = true) :
    (order C columns keys').le a b = true := by
  have ht' : (order C columns keys').ties a b = true :=
    order_ties.mpr fun k hk ↦ order_ties.mp ht k (h hk)
  exact (Ranking.ties_iff.mp ht').1

theorem restrictIf_columns {c : Option Expr} (h : R.restrictIf A c = some S) :
    S.columns = R.columns := by
  cases c with
  | none => exact congrArg columns (Option.some.inj h).symm
  | some e =>
    obtain ⟨-, rfl⟩ := restrict_eq_some.mp h
    rfl

theorem restrictIf_rows {c : Option Expr} (h : R.restrictIf A c = some S) :
    S.rows.Sublist R.rows := by
  cases c with
  | none =>
    obtain rfl := Option.some.inj h
    exact List.Sublist.refl _
  | some e =>
    obtain ⟨-, rfl⟩ := restrict_eq_some.mp h
    exact List.filter_sublist

theorem capped_columns (cap : Option Int) (R : Relation) : (R.capped cap).columns = R.columns := by
  cases cap <;> rfl

theorem capped_rows (cap : Option Int) (R : Relation) : (R.capped cap).rows.Sublist R.rows := by
  cases cap with
  | none => exact List.Sublist.refl _
  | some n => exact List.take_sublist _ _

end Relation

/-- The interpretation with the meaning of sorts and limits: a sort keeps the rows in which its
condition is true, orders them by its keys and keeps the first of them. -/
def Interpretation.ordered (I : Interpretation) (C : Direction → Ranking Datum) : Interpretation where
  toAlgebra := I.toAlgebra
  source := I.source
  source_columns := I.source_columns
  other
    | .sort keys cap c, [R] => do
      return (← (← R.restrictIf I.toAlgebra c).arrange C keys).capped cap
    | .limit n .head, [R] => some (R.first n)
    | .limit n .tail, [R] => some (R.final n)
    | op, Rs => I.other op Rs

namespace Plan

variable {I : Interpretation} {C : Direction → Ranking Datum} {m : Option Nat} {p : Plan}
  {R S : Relation} {keys : List SortKey} {cap : Option Int} {c : Option Expr}

theorem meaning_one {op : Operator} : meaning I (.node m op [p]) =
    (p.meaning I).bind fun R ↦ I.apply op.read [R] := by
  cases h : p.meaning I <;> simp [meaning, meaningList, h]

theorem meaning_sort : meaning (I.ordered C) (.node m (.sort keys cap c) [p]) = some S ↔
    ∃ R T U, p.meaning (I.ordered C) = some R ∧
      R.restrictIf I.toAlgebra (c.map Expr.read) = some T ∧ T.arrange C keys = some U ∧
      U.capped cap = S := by
  have happly : ∀ R, (I.ordered C).apply (Operator.sort keys cap c).read [R] =
      (R.restrictIf I.toAlgebra (c.map Expr.read)).bind fun T ↦
        (T.arrange C keys).bind fun U ↦ some (U.capped cap) := fun _ ↦ rfl
  simp only [meaning_one, happly, Option.bind_eq_some_iff, Option.some.injEq, exists_and_left]

theorem meaning_limit {n : Int} {side : Side} :
    meaning (I.ordered C) (.node m (.limit n side) [p]) =
      (p.meaning (I.ordered C)).map fun R ↦ if side = .head then R.first n else R.final n := by
  rw [meaning_one, Option.map_eq_bind]
  cases side <;> rfl

end Plan

end Gridplan
