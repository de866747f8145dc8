import Gridplan.Proofs.Cells.Sorting

namespace Gridplan

namespace Datum

variable {a b : Datum}

def HasValue (d : Datum) : Prop := d = .null ∨ d.isScalar = true

theorem HasValue.isAtom (h : a.HasValue) : a.isAtom = true := by
  rcases h with rfl | h
  · rfl
  · exact isAtom_iff.mpr (.inr h)

theorem HasValue.orNull_eq (h : a.HasValue) : a.orNull = a := by
  rcases h with rfl | h
  · rfl
  · rw [orNull, isMissing_of_isScalar h, if_neg Bool.false_ne_true]

theorem same_iff_value? (ha : a.HasValue) (hb : b.HasValue) :
    a.same b = true ↔ a.value? = b.value? := by
  refine ⟨value?_of_same ha.isAtom, fun h ↦ ?_⟩
  rw [← ha.orNull_eq, ← hb.orNull_eq]
  exact same_orNull ha.isAtom hb.isAtom h

theorem same_refl (ha : a.HasValue) : a.same a = true := (same_iff_value? ha ha).mpr rfl

end Datum

namespace Cells

open Outcome (Ensures Succeeds)

variable {x : Datum} {xs u : List Datum}

theorem hasValue_of_isDefinite (h : x.isAtom = true) (hd : IsDefinite x) : x.HasValue := by
  cases x with
  | null => exact .inl rfl
  | float y =>
    have hy : y.isNaN = false := hd y rfl
    exact .inr (by rw [Datum.isScalar, hy]; rfl)
  | list | tuple | record => cases h
  | _ => exact .inr rfl

theorem distinct_concat (xs : List Datum) (x : Datum) :
    distinct (xs ++ [x]) = if x.isIn (distinct xs) then distinct xs else distinct xs ++ [x] := by
  rw [distinct, List.foldl_append]
  rfl

theorem distinct_eq_reverse (xs : List Datum) :
    distinct xs = (xs.foldl Layout.note []).reverse := by
  induction xs using List.reverseRecOn with
  | nil => rfl
  | append_singleton xs x ih =>
    have hin : x.isIn (xs.foldl Layout.note []).reverse = x.isIn (xs.foldl Layout.note []) :=
      List.any_reverse
    rw [distinct_concat, ih, hin, List.foldl_append, List.foldl_cons, List.foldl_nil, Layout.note]
    split
    · rfl
    · exact List.reverse_cons.symm

theorem distinct_ne_nil (h : xs ≠ []) : distinct xs ≠ [] := by
  obtain ⟨x, hx⟩ := List.exists_mem_of_ne_nil _ h
  obtain ⟨y, hy, -⟩ := Layout.exists_foldl_note [] hx
  rw [distinct_eq_reverse]
  exact List.ne_nil_of_mem (List.mem_reverse.mpr hy)

theorem length_distinct (xs : List Datum) : (distinct xs).length = Layout.distinctCount xs := by
  rw [distinct_eq_reverse, List.length_reverse, Layout.distinctCount_eq]

theorem distinct_singletons (xs : List Datum) :
    distinct (xs.map fun x ↦ .list [x]) = (distinct xs).map fun x ↦ .list [x] := by
  induction xs using List.reverseRecOn with
  | nil => rfl
  | append_singleton xs x ih =>
    have hin : (Datum.list [x]).isIn ((distinct xs).map fun x ↦ .list [x]) =
        x.isIn (distinct xs) := by
      simp [Datum.isIn, Datum.same, Datum.sameList, List.any_map, Function.comp_def]
    rw [List.map_append, List.map_singleton, distinct_concat, distinct_concat, ih, hin]
    split
    · rfl
    · simp

/-- Whether some cells are those in which the values of a column appear first, one for each. -/
structure Covers (xs u : List Datum) : Prop where
  first : ∀ y ∈ u, xs.find? (·.same y) = some y
  once : ∀ x ∈ xs, u.countP (·.same x) = 1

/-- Whether a value appears in a column before another one. -/
def Precedes (xs : List Datum) (x y : Datum) : Prop :=
  xs.findIdx (·.same x) < xs.findIdx (·.same y)

theorem Covers.mem (h : Covers xs u) {y : Datum} (hy : y ∈ u) : y ∈ xs :=
  List.mem_of_find?_eq_some (h.first y hy)

theorem Covers.exists_same (h : Covers xs u) (hx : x ∈ xs) : ∃ y ∈ u, y.same x = true := by
  have hpos : 0 < u.countP (·.same x) := by rw [h.once x hx]; exact Nat.one_pos
  simpa using List.countP_pos_iff.mp hpos

theorem Covers.perm {v : List Datum} (h : Covers xs u) (hp : v.Perm u) : Covers xs v where
  first y hy := h.first y (hp.mem_iff.mp hy)
  once x hx := by rw [hp.countP_eq, h.once x hx]

section Concat

variable (h : Covers xs u) (hxs : ∀ y ∈ xs, y.HasValue) (hx : x.HasValue)

include h hxs

theorem Covers.findIdx_lt {y : Datum} (hy : y ∈ u) : xs.findIdx (·.same y) < xs.length :=
  List.findIdx_lt_length_of_exists ⟨y, h.mem hy, Datum.same_refl (hxs y (h.mem hy))⟩

theorem Covers.mem_iff : x ∈ u ↔ xs.find? (·.same x) = some x := by
  refine ⟨h.first x, fun hfind ↦ ?_⟩
  have hmem := List.mem_of_find?_eq_some hfind
  obtain ⟨y, hy, hyx⟩ := h.exists_same hmem
  have hyx := (Datum.same_iff_value? (hxs y (h.mem hy)) (hxs x hmem)).mp hyx
  have heq : xs.find? (·.same y) = xs.find? (·.same x) := by
    refine List.find?_congr fun z hz ↦ ?_
    rw [Bool.eq_iff_iff, Datum.same_iff_value? (hxs z hz) (hxs y (h.mem hy)),
      Datum.same_iff_value? (hxs z hz) (hxs x hmem), hyx]
  rw [h.first y hy, hfind] at heq
  rwa [← Option.some.inj heq]

theorem Covers.findIdx_concat {y : Datum} (hy : y ∈ u) :
    (xs ++ [x]).findIdx (·.same y) = xs.findIdx (·.same y) := by
  rw [List.findIdx_append, if_pos (h.findIdx_lt hxs hy)]

theorem Covers.pairwise_concat (hu : u.Pairwise (Precedes xs)) :
    u.Pairwise (Precedes (xs ++ [x])) := by
  refine hu.imp_of_mem fun {y z} hy hz hyz ↦ ?_
  rwa [Precedes, h.findIdx_concat hxs hy, h.findIdx_concat hxs hz]

omit hxs in
theorem Covers.first_concat {y : Datum} (hy : y ∈ u) : (xs ++ [x]).find? (·.same y) = some y := by
  rw [List.find?_append, h.first y hy, Option.some_or]

include hx

theorem Covers.concat_of_isIn (hin : x.isIn u = true) : Covers (xs ++ [x]) u where
  first y hy := h.first_concat hy
  once z hz := by
    rcases List.mem_append.mp hz with hz | hz
    · exact h.once z hz
    · obtain rfl := List.mem_singleton.mp hz
      obtain ⟨w, hw, hwz⟩ := List.any_eq_true.mp hin
      have hvalue : ∀ y ∈ u, y.HasValue := fun y hy ↦ hxs y (h.mem hy)
      rw [← h.once w (h.mem hw)]
      refine List.countP_congr fun y hy ↦ ?_
      rw [Datum.same_iff_value? (hvalue y hy) hx, Datum.same_iff_value? (hvalue y hy) (hvalue w hw),
        (Datum.same_iff_value? (hvalue w hw) hx).mp hwz]

theorem Covers.value?_ne (hin : x.isIn u = false) {z : Datum} (hz : z ∈ xs) :
    z.value? ≠ x.value? := by
  intro heq
  obtain ⟨y, hy, hyz⟩ := h.exists_same hz
  have hyx : y.same x = true := by
    rw [Datum.same_iff_value? (hxs y (h.mem hy)) hx, ← heq]
    exact (Datum.same_iff_value? (hxs y (h.mem hy)) (hxs z hz)).mp hyz
  have hany : x.isIn u = true := List.any_eq_true.mpr ⟨y, hy, hyx⟩
  exact Bool.false_ne_true (hin.symm.trans hany)

theorem Covers.concat_of_new (hu : u.Pairwise (Precedes xs)) (hin : x.isIn u = false) :
    Covers (xs ++ [x]) (u ++ [x]) ∧ (u ++ [x]).Pairwise (Precedes (xs ++ [x])) := by
  have hnone : ∀ z ∈ xs, z.same x = false := fun z hz ↦ by
    rw [← Bool.not_eq_true, Datum.same_iff_value? (hxs z hz) hx]
    exact h.value?_ne hxs hx hin hz
  refine ⟨⟨fun y hy ↦ ?_, fun z hz ↦ ?_⟩, ?_⟩
  · rcases List.mem_append.mp hy with hy | hy
    · exact h.first_concat hy
    · obtain rfl := List.mem_singleton.mp hy
      have hfind : xs.find? (·.same y) = none := by simpa using hnone
      simp [hfind, Datum.same_refl hx]
  · rw [List.countP_append, List.countP_singleton]
    rcases List.mem_append.mp hz with hz | hz
    · have hxz : ¬x.same z = true := by
        rw [Datum.same_iff_value? hx (hxs z hz)]
        exact (h.value?_ne hxs hx hin hz).symm
      rw [h.once z hz, if_neg hxz]
    · obtain rfl := List.mem_singleton.mp hz
      have hzero : u.countP (·.same z) = 0 :=
        List.countP_eq_zero.mpr fun y hy ↦ by simp [hnone y (h.mem hy)]
      rw [hzero, if_pos (Datum.same_refl hx)]
  · refine List.pairwise_append.mpr
      ⟨h.pairwise_concat hxs hu, List.pairwise_singleton .., fun y hy z hz ↦ ?_⟩
    obtain rfl := List.mem_singleton.mp hz
    have hend : xs.findIdx (·.same z) = xs.length := List.findIdx_eq_length.mpr hnone
    rw [Precedes, h.findIdx_concat hxs hy, List.findIdx_append, hend, if_neg (lt_irrefl _)]
    exact (h.findIdx_lt hxs hy).trans_le (Nat.le_add_left ..)

end Concat

theorem covers_distinct (hxs : ∀ x ∈ xs, x.HasValue) :
    Covers xs (distinct xs) ∧ (distinct xs).Pairwise (Precedes xs) := by
  induction xs using List.reverseRecOn with
  | nil =>
    exact ⟨⟨fun y hy ↦ (List.not_mem_nil hy).elim, fun x hx ↦ (List.not_mem_nil hx).elim⟩, .nil⟩
  | append_singleton xs x ih =>
    obtain ⟨hxs, hx⟩ := List.forall_mem_append.mp hxs
    have hx := hx x List.mem_cons_self
    obtain ⟨hcovers, hpairwise⟩ := ih hxs
    rw [distinct_concat]
    cases hin : x.isIn (distinct xs) with
    | true => exact ⟨hcovers.concat_of_isIn hxs hx hin, hcovers.pairwise_concat hxs hpairwise⟩
    | false => exact hcovers.concat_of_new hxs hx hpairwise hin

/-- Whether a value comes before another one of a column: it has a lesser key, or an equal one and
appears first. -/
def Leads (xs : List Datum) (x y : Datum) : Prop :=
  (keyOf x).order (keyOf y) = .lt ∨ (keyOf x).order (keyOf y) = .eq ∧ Precedes xs x y

/-- Whether a row has the values of a column in their order, each of them once. -/
structure ValuesOf (xs row : List Datum) : Prop extends Covers xs row where
  ordered : row.Pairwise (Leads xs)

def byKey : Ranking Datum := (byColumns [(0, true)]).comap fun x ↦ [x]

theorem unique_column {d : Datum} (hd : rows d = xs.map fun x ↦ .list [x]) (hne : xs ≠ []) :
    unique d = table ((distinct xs).map fun x ↦ [x]) := by
  rw [unique, hd, distinct_singletons, orBlank, if_neg (by simpa using distinct_ne_nil hne), table,
    List.map_map]
  rfl

theorem sort_column (hne : u ≠ []) (hd : ∀ x ∈ u, IsDefinite x) :
    (Succeeds (sort (table (u.map fun x ↦ [x])) [.int 1, .bool true]) ↔ ∀ x ∈ u, IsSortable x) ∧
    Ensures (sort (table (u.map fun x ↦ [x])) [.int 1, .bool true]) fun e ↦
      e = table ((byKey.sort u).map fun x ↦ [x]) := by
  have hne' : (u.map fun x ↦ [x]) ≠ [] := by simpa using hne
  have hargs : [.int 1, .bool true] = sortArguments [(0, true)] := rfl
  have hiff := (sort_table [(0, true)] hne').2
  rw [hargs]
  constructor
  · rw [hiff]
    simp
  · intro e he
    have hs := hiff.mp ⟨e, he⟩
    rw [sort_eq hne' hs (by simpa [cellIn] using hd)] at he
    rw [byKey, Ranking.map_sort_comap]
    exact (Except.ok.inj he).symm

theorem transpose_column (hne : u ≠ []) :
    transpose (table (u.map fun x ↦ [x])) = .ok (.list [.list u]) := by
  obtain ⟨x, u, rfl⟩ := List.exists_cons_of_ne_nil hne
  have hitem : ∀ y ∈ u, Datum.item 0 (.list [y]) = .ok (id y) := fun _ _ ↦ rfl
  have hfirst : Datum.item 0 (.list [x]) = .ok x := rfl
  simp [transpose, Datum.size, Function.comp_def, Outcome.mapM_ok hitem, hfirst]

theorem rowOrder_singleton (x y : Datum) :
    rowOrder [(0, true)] [x] [y] = (keyOf x).order (keyOf y) := by
  cases h : (keyOf x).order (keyOf y) <;> simp [rowOrder, columnOrder, SortKey.directed, cellIn, h]

theorem pairwise_leads (hd : ∀ x ∈ u, IsDefinite x) (hu : u.Pairwise (Precedes xs)) :
    (byKey.sort u).Pairwise (Leads xs) := by
  have hdef : ∀ x ∈ byKey.sort u, ∀ k ∈ [(0, true)], IsDefinite (cellIn k.1 [x]) := fun x hx ↦ by
    simpa [cellIn] using hd x ((byKey.sort_perm u).mem_iff.mp hx)
  refine ((byKey.pairwise_sort u).and (Ranking.pairwise_ties_sort hu)).imp_of_mem
    fun {x y} hx hy hxy ↦ ?_
  obtain ⟨hle, htie⟩ := hxy
  have hle' := (byColumns_le (hdef x hx) (hdef y hy)).1
  have htie' := byColumns_ties (hdef x hx) (hdef y hy)
  rw [rowOrder_singleton] at hle' htie'
  cases horder : (keyOf x).order (keyOf y) with
  | lt => exact .inl horder
  | eq => exact .inr ⟨horder, htie (htie'.trans (by rw [horder]; rfl))⟩
  | gt =>
    rw [horder] at hle'
    exact absurd (hle'.symm.trans hle) Bool.false_ne_true

/-- The cells of a column that is turned after leaving repeated cells out and sorting are a row with
its values in their order. This fails only when a value appears first as an integer that is too
large. -/
theorem transpose_sort_unique {d : Datum} (hrows : rows d = xs.map fun x ↦ .list [x])
    (hne : xs ≠ []) (hxs : ∀ x ∈ xs, x.isAtom = true ∧ IsDefinite x) :
    (Succeeds (sort (unique d) [.int 1, .bool true] >>= transpose) ↔
      ∀ x ∈ xs, xs.find? (·.same x) = some x → IsSortable x) ∧
    Ensures (sort (unique d) [.int 1, .bool true] >>= transpose) fun e ↦
      ∃ row, e = .list [.list row] ∧ ValuesOf xs row ∧ row.length = Layout.distinctCount xs := by
  have hvalue : ∀ x ∈ xs, x.HasValue := fun x hx ↦ hasValue_of_isDefinite (hxs x hx).1 (hxs x hx).2
  obtain ⟨hcovers, hpairwise⟩ := covers_distinct hvalue
  have hd : ∀ x ∈ distinct xs, IsDefinite x := fun x hx ↦ (hxs x (hcovers.mem hx)).2
  have hdistinct := distinct_ne_nil hne
  have hperm := byKey.sort_perm (distinct xs)
  have hturn := transpose_column fun h ↦ hdistinct (List.nil_perm.mp (h ▸ hperm))
  obtain ⟨hiff, hsorted⟩ := sort_column hdistinct hd
  rw [unique_column hrows hne]
  refine ⟨?_, hsorted.bind fun e he ↦ ?_⟩
  · rw [Outcome.succeeds_bind_total fun e he ↦ by rw [hsorted e he, hturn]; exact ⟨_, rfl⟩, hiff]
    simp only [hcovers.mem_iff hvalue]
    exact ⟨fun h x _ ↦ h x, fun h x hx ↦ h x (List.mem_of_find?_eq_some hx) hx⟩
  · rw [he, hturn]
    refine .ok ⟨_, rfl, ⟨hcovers.perm hperm, pairwise_leads hd hpairwise⟩, ?_⟩
    rw [hperm.length_eq, length_distinct]

end Cells

end Gridplan
