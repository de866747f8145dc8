import Gridplan.Proofs.Frame.Windows

namespace Gridplan

namespace Ranking

variable {r : Ranking Nat} {n i : Nat} {p q : Nat → Bool}

theorem take_idxOf_eq_filter {l : List Nat} (h : l.Pairwise fun i j ↦ r.precedes i j = true)
    (hi : i ∈ l) : l.take (l.idxOf i + 1) = l.filter fun j ↦ r.precedes j i || j == i := by
  induction l with
  | nil => cases hi
  | cons a l ih =>
    obtain ⟨ha, hl⟩ := List.pairwise_cons.mp h
    rcases eq_or_ne a i with rfl | hne
    · have hnone : (l.filter fun j ↦ r.precedes j a || j == a) = [] := by
        refine List.filter_eq_nil_iff.mpr fun j hj hja ↦ ?_
        rcases Bool.or_eq_true_iff.mp hja with hja | hja
        · exact not_precedes_of_precedes (ha j hj) hja
        · exact not_precedes_self ((beq_iff_eq.mp hja) ▸ ha j hj)
      rw [List.idxOf_cons_self, List.take_succ_cons, List.take_zero,
        List.filter_cons_of_pos (by simp), hnone]
    · have hi := List.mem_of_ne_of_mem hne.symm hi
      rw [List.idxOf_cons_ne _ hne, List.take_succ_cons, ih hl hi,
        List.filter_cons_of_pos (by simp [ha i hi])]

theorem perm_upTo (hi : i < n) (hp : p i = true) :
    ((List.range n).filter fun j ↦ p j && r.le j i).Perm
      (((r.sort (List.range n)).filter p).take (((r.sort (List.range n)).filter p).idxOf i + 1) ++
        (List.range n).filter fun j ↦ p j && (r.ties j i && decide (i < j))) := by
  have hmem : i ∈ (r.sort (List.range n)).filter p :=
    List.mem_filter.mpr ⟨(r.sort_perm _).mem_iff.mpr (List.mem_range.mpr hi), hp⟩
  rw [take_idxOf_eq_filter ((pairwise_precedes r n).filter p) hmem, List.filter_filter]
  refine List.Perm.trans ?_ (((r.sort_perm _).filter _).symm.append_right _)
  refine List.Perm.trans (.of_eq (List.filter_congr fun j _ ↦ ?_)) (perm_filter_or fun j _ hj ↦ ?_)
  · have hself := r.le_refl i
    rw [Bool.eq_iff_iff]
    simp only [Bool.and_eq_true, Bool.or_eq_true, precedes_iff, ties_iff, decide_eq_true_eq,
      beq_iff_eq]
    rcases lt_trichotomy j i with hlt | rfl | hlt
    · simp [hlt, hlt.ne, hlt.not_gt, and_comm]
    · simp [hself]
    · simp only [hlt, hlt.ne', hlt.not_gt, imp_false, or_false, and_true]
      tauto
  · -- a number up to this one that ties with it is not larger
    have hj : (r.precedes j i || j == i) = true := (Bool.and_eq_true_iff.mp hj).1
    rw [Bool.eq_false_iff, Ne, Bool.and_eq_true_iff, Bool.and_eq_true_iff, decide_eq_true_iff,
      ties_iff]
    rintro ⟨-, ⟨-, hij⟩, hlt⟩
    rcases Bool.or_eq_true_iff.mp hj with hj | hj
    · exact hlt.not_gt ((precedes_iff.mp hj).2 hij)
    · exact hlt.ne' (beq_iff_eq.mp hj)

theorem countP_ties (hi : i < n) (hp : p i = true) :
    ((List.range n).countP fun j ↦ p j && r.ties j i) =
      ((List.range n).countP fun j ↦ p j && (r.ties j i && j != i)) + 1 := by
  have hself : (List.range n).countP (· == i) = 1 :=
    List.count_eq_one_of_mem List.nodup_range (List.mem_range.mpr hi)
  rw [← hself, ← countP_or]
  · refine List.countP_congr fun j _ ↦ ?_
    rcases eq_or_ne j i with rfl | hne
    · simp [hp, r.ties_refl]
    · simp [hne]
  · intro j _ hj
    simp only [Bool.and_eq_true_iff, bne_iff_ne] at hj
    exact beq_eq_false_iff_ne.mpr hj.2.2

end Ranking

namespace Frame

variable {f : Frame} {names ns : List String} {d : Direction} {order : String} {i : Nat}

def notAfter (f : Frame) (ns : List String) (d : Direction) (order : String) (i : Nat) : List Nat :=
  (List.range f.height).filter fun j ↦ f.peers ns i j && (f.ranking d order).le j i

def tiesBelow (f : Frame) (ns : List String) (d : Direction) (order : String) (i : Nat) :
    List Nat :=
  (List.range f.height).filter fun j ↦
    f.peers ns i j && ((f.ranking d order).ties j i && decide (i < j))

/-- The number of other rows of a row's partition that tie with it. -/
def tieCount (f : Frame) (ns : List String) (d : Direction) (order : String) (i : Nat) : Nat :=
  (List.range f.height).countP fun j ↦ f.peers ns i j && ((f.ranking d order).ties j i && j != i)

theorem Filled.mem_rowsTo (h : f.Filled names) (hns : ns ⊆ names) (hi : i < f.height) :
    i ∈ f.rowsTo ns d order i := by
  have hlt : (f.partOf ns d order i).idxOf i < (f.partOf ns d order i).length :=
    List.idxOf_lt_length_of_mem (h.mem_partOf hns hi)
  refine List.mem_iff_getElem.mpr ⟨(f.partOf ns d order i).idxOf i, ?_, ?_⟩
  · rw [rowsTo, List.length_take]
    omega
  · simp only [rowsTo, List.getElem_take, List.getElem_idxOf]

theorem ties_place {j : Nat} (h : (f.ranking d order).ties j i = true) :
    (f.cell order j).place = (f.cell order i).place := by
  obtain ⟨hji, hij⟩ := Ranking.ties_iff.mp h
  cases d with
  | asc => exact le_antisymm (ranking_asc.mp hji) (ranking_asc.mp hij)
  | desc => exact le_antisymm (ranking_desc.mp hij) (ranking_desc.mp hji)

theorem Filled.perm_notAfter (h : f.Filled names) (hns : ns ⊆ names) (hi : i < f.height) :
    (f.notAfter ns d order i).Perm (f.rowsTo ns d order i ++ f.tiesBelow ns d order i) :=
  Ranking.perm_upTo hi ((h.peers_iff hns hi hi).mpr rfl)

theorem Filled.rowsTo_subset (h : f.Filled names) (hns : ns ⊆ names) (hi : i < f.height) :
    f.rowsTo ns d order i ⊆ f.notAfter ns d order i := fun _ hj ↦
  (h.perm_notAfter hns hi).mem_iff.mpr (List.mem_append_left _ hj)

theorem Filled.exists_rowsTo (h : f.Filled names) (hns : ns ⊆ names) (hi : i < f.height) {j : Nat}
    (hj : j ∈ f.notAfter ns d order i) :
    ∃ k ∈ f.rowsTo ns d order i, (f.cell order k).place = (f.cell order j).place := by
  rcases List.mem_append.mp ((h.perm_notAfter hns hi).mem_iff.mp hj) with hto | hbelow
  · exact ⟨j, hto, rfl⟩
  · simp only [tiesBelow, List.mem_filter, Bool.and_eq_true] at hbelow
    exact ⟨i, h.mem_rowsTo hns hi, (ties_place hbelow.2.2.1).symm⟩

theorem Filled.length_notAfter (h : f.Filled names) (hns : ns ⊆ names) (hi : i < f.height) :
    (f.notAfter ns .asc order i).length = f.rankOf ns order i + f.tieCount ns .asc order i := by
  have hself := (h.peers_iff hns hi hi).mpr rfl
  rw [notAfter, ← List.countP_eq_length_filter, Ranking.countP_upTo, Ranking.countP_ties hi hself,
    rankOf, tieCount]
  omega

theorem foldl_least {β : Type} [LinearOrder β] (key : Float → β) {step : Float → Float → Float}
    {x : Float} {xs : List Float}
    (hstep : ∀ a ∈ x :: xs, ∀ b ∈ x :: xs, step a b = if key b < key a then b else a) :
    xs.foldl step x ∈ x :: xs ∧ ∀ y ∈ x :: xs, key (xs.foldl step x) ≤ key y := by
  induction xs generalizing x with
  | nil => simp
  | cons b xs ih =>
    have hxb := hstep x (by simp) b (by simp)
    have hmem : step x b ∈ x :: b :: xs := by
      rw [hxb]
      split <;> simp
    have hle : key (step x b) ≤ key x ∧ key (step x b) ≤ key b := by
      rw [hxb]
      split
      · next hlt => exact ⟨hlt.le, le_rfl⟩
      · next hlt => exact ⟨le_rfl, not_lt.mp hlt⟩
    have hsub : ∀ a ∈ step x b :: xs, a ∈ x :: b :: xs :=
      List.forall_mem_cons.mpr ⟨hmem, fun a ha ↦ by simp [ha]⟩
    obtain ⟨hin, hleast⟩ := ih fun a ha c hc ↦ hstep a (hsub a ha) c (hsub c hc)
    obtain ⟨hfirst, hrest⟩ := List.forall_mem_cons.mp hleast
    exact ⟨hsub _ hin, List.forall_mem_cons.mpr ⟨hfirst.trans hle.1,
      List.forall_mem_cons.mpr ⟨hfirst.trans hle.2, hrest⟩⟩⟩

theorem lt_iff_place {x y : Float} (hx : x.isNaN = false) (hy : y.isNaN = false) :
    x < y ↔ (Number.float x).place < (Number.float y).place := by
  rw [Decimal.lt_iff, Decimal.compare_unpack hx hy, Option.some.injEq]
  exact compare_lt_iff_lt

variable {ys zs : List Float}

theorem summary_min (hne : ys ≠ []) (hys : ∀ y ∈ ys, y.isNaN = false) :
    Column.expanding.summary .min ys ∈ ys ∧ ∀ y ∈ ys,
      (Number.float (Column.expanding.summary .min ys)).place ≤ (Number.float y).place := by
  obtain ⟨x, xs, rfl⟩ := List.exists_cons_of_ne_nil hne
  refine foldl_least (fun x ↦ (Number.float x).place) fun a ha b hb ↦ ?_
  simp only [lt_iff_place (hys b hb) (hys a ha)]

theorem summary_max (hne : ys ≠ []) (hys : ∀ y ∈ ys, y.isNaN = false) :
    Column.expanding.summary .max ys ∈ ys ∧ ∀ y ∈ ys,
      (Number.float y).place ≤ (Number.float (Column.expanding.summary .max ys)).place := by
  obtain ⟨x, xs, rfl⟩ := List.exists_cons_of_ne_nil hne
  refine foldl_least (fun x ↦ OrderDual.toDual (Number.float x).place) fun a ha b hb ↦ ?_
  simp only [lt_iff_place (hys a ha) (hys b hb), OrderDual.toDual_lt_toDual]

theorem summary_same {s : Summary} (hs : s = .min ∨ s = .max) (hne : ys ≠ []) (hsub : ys ⊆ zs)
    (hzs : ∀ z ∈ zs, z.isNaN = false)
    (hties : ∀ z ∈ zs, ∃ y ∈ ys, (Number.float y).place = (Number.float z).place) :
    (Number.float (Column.expanding.summary s zs)).place =
      (Number.float (Column.expanding.summary s ys)).place := by
  have hne' : zs ≠ [] := by
    rintro rfl
    exact hne (List.subset_nil.mp hsub)
  have hys : ∀ y ∈ ys, y.isNaN = false := fun y hy ↦ hzs y (hsub hy)
  rcases hs with rfl | rfl
  · obtain ⟨hin, hleast⟩ := summary_min hne hys
    obtain ⟨hin', hleast'⟩ := summary_min hne' hzs
    obtain ⟨y, hy, hplace⟩ := hties _ hin'
    exact le_antisymm (hleast' _ (hsub hin)) (hplace ▸ hleast y hy)
  · obtain ⟨hin, hmost⟩ := summary_max hne hys
    obtain ⟨hin', hmost'⟩ := summary_max hne' hzs
    obtain ⟨y, hy, hplace⟩ := hties _ hin'
    exact le_antisymm (hplace ▸ hmost y hy) (hmost' _ (hsub hin))

theorem summary_mem {s : Summary} (hs : s = .min ∨ s = .max) (hne : ys ≠ [])
    (hys : ∀ y ∈ ys, y.isNaN = false) : Column.expanding.summary s ys ∈ ys := by
  rcases hs with rfl | rfl
  · exact (summary_min hne hys).1
  · exact (summary_max hne hys).1

theorem place_numberAt_map {α : Type} {g : α → Datum} {k : α → Float} {as : List α} {i j : Nat}
    (hi : i < as.length) (hj : j < as.length)
    (h : (cellAt (as.map g) i).place = (cellAt (as.map g) j).place)
    (hk : ∀ a b, (g a).place = (g b).place →
      (Number.float (k a)).place = (Number.float (k b)).place) :
    (Number.float (numberAt (as.map k) i)).place =
      (Number.float (numberAt (as.map k) j)).place := by
  simp only [cellAt, numberAt, List.getElem?_map, List.getElem?_eq_getElem hi,
    List.getElem?_eq_getElem hj, Option.map_some, Option.getD_some] at h ⊢
  exact hk _ _ h

theorem int_inj_of_place {m n : Int} (h : (Datum.int m).place = (Datum.int n).place) : m = n := by
  have h : m * 2 ^ 1074 = n * 2 ^ 1074 := congrArg (fun p ↦ (ofLex (ofLex p).1).2) h
  exact Int.eq_of_mul_eq_mul_right (by positivity) h

theorem place_numberAt {c : Column} {xs : List Float} {i j : Nat} (hc : c.floats? = some xs)
    (hkind : ∀ ds, c ≠ .mixed ds) (hi : i < c.length) (hj : j < c.length)
    (h : (cellAt c.toList i).place = (cellAt c.toList j).place) :
    (Number.float (numberAt xs i)).place = (Number.float (numberAt xs j)).place := by
  cases c with
  | ints ks =>
    obtain rfl := Option.some.inj hc
    refine place_numberAt_map hi hj h fun a b hab ↦ ?_
    rw [int_inj_of_place hab]
  | floats ys =>
    obtain rfl := Option.some.inj hc
    have hplace := place_numberAt_map (k := id) hi hj h fun a b hab ↦
      congrArg (fun p ↦ (ofLex p).1) hab
    rwa [List.map_id] at hplace
  | bools bs =>
    obtain rfl := Option.some.inj hc
    refine place_numberAt_map hi hj h fun a b hab ↦ ?_
    have hab : (if a then 1 else 0 : Int) = if b then 1 else 0 := int_inj_of_place hab
    obtain rfl : a = b := by
      cases a <;> cases b <;> simp_all
    rfl
  | mixed ds => exact absurd rfl (hkind ds)

variable {s : Summary} {xs : List Float}

theorem isScalar_total {rows : List Nat} (hs : s = .min ∨ s = .max) (hne : rows ≠ [])
    (hfinite : ∀ i ∈ rows, (numberAt xs i).isFinite = true) :
    (Datum.float (totalOf s xs rows)).isScalar = true := by
  have hproper : ∀ y ∈ rows.map (numberAt xs), y.isNaN = false :=
    List.forall_mem_map.mpr fun i hi ↦ isNaN_of_isFinite (hfinite i hi)
  have hmem := summary_mem hs (by simpa using hne) hproper
  rw [Datum.isScalar, totalOf, hproper _ hmem]
  rfl

theorem Filled.total_same (h : f.Filled names) (hns : ns ⊆ names) (horder : order ∈ names)
    (hs : s = .min ∨ s = .max) (hxs : (f.columnOf order).floats? = some xs)
    (hfinite : ∀ i < f.height, (numberAt xs i).isFinite = true)
    (hkind : ∀ ds, f.columnOf order ≠ .mixed ds) (hi : i < f.height) :
    (Datum.float (totalOf s xs (f.notAfter ns d order i))).same
      (.float (totalOf s xs (f.rowsTo ns d order i))) = true := by
  have hself : i ∈ f.rowsTo ns d order i := h.mem_rowsTo hns hi
  have hsub : f.rowsTo ns d order i ⊆ f.notAfter ns d order i := h.rowsTo_subset hns hi
  have hlen := h.length_columnOf horder
  have hlt : ∀ j ∈ f.notAfter ns d order i, j < f.height := fun j hj ↦
    List.mem_range.mp (List.mem_of_mem_filter hj)
  have hties : ∀ z ∈ (f.notAfter ns d order i).map (numberAt xs),
      ∃ y ∈ (f.rowsTo ns d order i).map (numberAt xs),
        (Number.float y).place = (Number.float z).place := by
    refine List.forall_mem_map.mpr fun j hj ↦ ?_
    obtain ⟨k, hk, hplace⟩ := h.exists_rowsTo hns hi hj
    exact ⟨_, List.mem_map_of_mem hk, place_numberAt hxs hkind (hlen ▸ hlt k (hsub hk))
      (hlen ▸ hlt j hj) hplace⟩
  have hsame := summary_same hs (List.ne_nil_of_mem (List.mem_map_of_mem hself))
    (List.map_subset _ hsub)
    (List.forall_mem_map.mpr fun j hj ↦ isNaN_of_isFinite (hfinite j (hlt j hj))) hties
  refine (Datum.same_iff (isScalar_total hs ?_ fun j hj ↦ hfinite j (hlt j hj))
    (isScalar_total hs ?_ fun j hj ↦ hfinite j (hlt j (hsub hj)))).mpr ?_
  · exact List.ne_nil_of_mem (hsub hself)
  · exact List.ne_nil_of_mem hself
  · exact congrArg (fun p ↦ toLex (p, "")) hsame

end Frame

end Gridplan
