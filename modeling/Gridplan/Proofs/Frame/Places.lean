import Gridplan.Frame.Window
import Gridplan.Proofs.Datum.Order
import Gridplan.Proofs.Frame.Labels
import Gridplan.Proofs.Relation.Order

namespace Gridplan

namespace Ranking

variable {r : Ranking Nat} {n i j : Nat} {p : Nat → Bool}
variable {l : List Nat}

def precedes (r : Ranking Nat) (i j : Nat) : Bool := r.le i j && (!r.le j i || decide (i < j))

theorem precedes_iff : r.precedes i j = true ↔ r.le i j = true ∧ (r.le j i = true → i < j) := by
  simp only [precedes, Bool.and_eq_true, Bool.or_eq_true, Bool.not_eq_true', decide_eq_true_eq]
  exact and_congr_right fun _ ↦ by cases r.le j i <;> simp

theorem not_precedes_of_precedes (h : r.precedes i j = true) : ¬r.precedes j i = true := by
  obtain ⟨hij, hlt⟩ := precedes_iff.mp h
  rintro hji
  obtain ⟨hji, hgt⟩ := precedes_iff.mp hji
  have := hlt hji
  have := hgt hij
  omega

theorem not_precedes_self : ¬r.precedes i i = true := fun h ↦ not_precedes_of_precedes h h

theorem pairwise_precedes (r : Ranking Nat) (n : Nat) :
    (r.sort (List.range n)).Pairwise fun i j ↦ r.precedes i j = true := by
  refine List.pairwise_iff_forall_sublist.mpr fun {i j} hij ↦ ?_
  have hle := List.pairwise_iff_forall_sublist.mp (r.pairwise_sort (List.range n)) hij
  refine precedes_iff.mpr ⟨hle, fun hji ↦ ?_⟩
  -- ties stay in their order
  have hties := hij.filter (r.ties i)
  rw [List.filter_cons_of_pos (r.ties_refl i),
    List.filter_cons_of_pos (ties_iff.mpr ⟨hle, hji⟩), filter_sort_ties] at hties
  exact List.pairwise_iff_forall_sublist.mp (List.pairwise_lt_range (n := n))
    (hties.trans List.filter_sublist)

theorem idxOf_eq_countP (h : l.Pairwise fun i j ↦ r.precedes i j = true) (hi : i ∈ l) :
    l.idxOf i = l.countP fun j ↦ r.precedes j i := by
  induction l with
  | nil => cases hi
  | cons a l ih =>
    obtain ⟨ha, hl⟩ := List.pairwise_cons.mp h
    rcases eq_or_ne a i with rfl | hne
    · have hzero : (l.countP fun j ↦ r.precedes j a) = 0 :=
        List.countP_eq_zero.mpr fun j hj ↦ not_precedes_of_precedes (ha j hj)
      rw [List.idxOf_cons_self, List.countP_cons, hzero, if_neg not_precedes_self]
    · have hi := List.mem_of_ne_of_mem hne.symm hi
      rw [List.idxOf_cons_ne _ hne, ih hl hi, List.countP_cons, if_pos (ha i hi)]

theorem idxOf_filter_sort (hi : i < n) (hp : p i = true) :
    ((r.sort (List.range n)).filter p).idxOf i =
      (List.range n).countP fun j ↦ p j && r.precedes j i := by
  have hmem : i ∈ (r.sort (List.range n)).filter p :=
    List.mem_filter.mpr ⟨(r.sort_perm _).mem_iff.mpr (List.mem_range.mpr hi), hp⟩
  rw [idxOf_eq_countP ((pairwise_precedes r n).filter p) hmem, List.countP_filter,
    (r.sort_perm _).countP_eq]
  simp only [Bool.and_comm]

theorem perm_filter_or {p q : Nat → Bool} (h : ∀ j ∈ l, p j = true → q j = false) :
    (l.filter fun j ↦ p j || q j).Perm (l.filter p ++ l.filter q) := by
  induction l with
  | nil => rfl
  | cons j l ih =>
    obtain ⟨hj, hl⟩ := List.forall_mem_cons.mp h
    have ih := ih hl
    cases hp : p j <;> cases hq : q j
    · simpa [List.filter_cons, hp, hq] using ih
    · simpa [List.filter_cons, hp, hq] using (ih.cons j).trans List.perm_middle.symm
    · simpa [List.filter_cons, hp, hq] using ih
    · rw [hj hp] at hq
      cases hq

theorem countP_or {p q : Nat → Bool} (h : ∀ j ∈ l, p j = true → q j = false) :
    (l.countP fun j ↦ p j || q j) = l.countP p + l.countP q := by
  simpa [List.countP_eq_length_filter] using (perm_filter_or h).length_eq

/-- Those before a number and those level with it but not larger are those that come before it, and
the number itself. -/
theorem countP_before_add_ties (hi : i < n) (hp : p i = true) :
    ((List.range n).countP fun j ↦ p j && !r.le i j) +
      ((List.range n).countP fun j ↦ p j && (r.ties j i && decide (j ≤ i))) =
        ((List.range n).countP fun j ↦ p j && r.precedes j i) + 1 := by
  have hself : (List.range n).countP (· == i) = 1 :=
    List.count_eq_one_of_mem List.nodup_range (List.mem_range.mpr hi)
  rw [← countP_or, ← hself, ← countP_or]
  · refine List.countP_congr fun j _ ↦ ?_
    have htotal := r.total i j
    rcases eq_or_ne j i with rfl | hne
    · simp [hp, r.ties_refl]
    · have hle : j ≤ i ↔ j < i := hne.le_iff_lt
      cases hij : r.le i j <;> cases hji : r.le j i <;> simp_all [ties, precedes]
  · intro j _ hj
    rw [beq_eq_false_iff_ne]
    rintro rfl
    exact not_precedes_self (Bool.and_eq_true_iff.mp hj).2
  · intro j _ hj
    have hij := (Bool.and_eq_true_iff.mp hj).2
    simp_all [ties]

theorem countP_upTo : ((List.range n).countP fun j ↦ p j && r.le j i) =
    ((List.range n).countP fun j ↦ p j && !r.le i j) +
      (List.range n).countP fun j ↦ p j && r.ties j i := by
  rw [← countP_or]
  · refine List.countP_congr fun j _ ↦ ?_
    have htotal := r.total i j
    cases hij : r.le i j <;> simp_all [ties]
  · intro j _ hj
    have hij := (Bool.and_eq_true_iff.mp hj).2
    simp_all [ties]

end Ranking

namespace Frame

def cellAt (cells : List Datum) (i : Nat) : Datum := (cells[i]?).getD .null

def rowRanking (d : Direction) (cells : List Datum) : Ranking Nat where
  le i j :=
    match d with
    | .asc => decide ((cellAt cells i).place ≤ (cellAt cells j).place)
    | .desc => decide ((cellAt cells j).place ≤ (cellAt cells i).place)
  trans i j k := by
    cases d <;> simp only [decide_eq_true_eq]
    · exact le_trans
    · exact fun h h' ↦ le_trans h' h
  total i j := by
    cases d <;> simp only [Bool.or_eq_true, decide_eq_true_eq]
    · exact le_total _ _
    · exact le_total _ _

theorem isMissing_of_isScalar {d : Datum} (h : d.isScalar = true) : d.isMissing = false := by
  cases d <;> simp_all [Datum.isScalar, Datum.isMissing]

theorem keyOrder_ne_gt {d : Direction} {cells : List Datum} {i j : Nat}
    (hi : (cellAt cells i).isScalar = true) (hj : (cellAt cells j).isScalar = true) :
    (keyOrder [d] [cellAt cells i] [cellAt cells j] != .gt) = (rowRanking d cells).le i j := by
  simp only [keyOrder, cellOrder, isMissing_of_isScalar hi, isMissing_of_isScalar hj, rowRanking,
    Ordering.then_eq]
  cases d with
  | asc =>
    rw [Bool.eq_iff_iff, bne_iff_ne, Ne, Datum.cellOrder_eq_gt hi hj, decide_eq_true_iff, not_lt]
  | desc =>
    rw [Bool.eq_iff_iff, bne_iff_ne, Ne, Datum.cellOrder_eq_gt hj hi, decide_eq_true_iff, not_lt]

theorem keyRows_getElem? {n i : Nat} (hi : i < n) (keys : List Column) :
    ((keyRows n keys)[i]?).getD [] = keys.map fun c ↦ cellAt c.toList i := by
  simp [keyRows, hi, cellAt]

theorem arrange_eq_sort {d : Direction} {c : Column} {n : Nat}
    (h : ∀ i < n, (cellAt c.toList i).isScalar = true) :
    arrange [d] (keyRows n [c]) (List.range n) = (rowRanking d c.toList).sort (List.range n) := by
  let f (i : Nat) : List Datum × Nat := (((keyRows n [c])[i]?).getD [], i)
  have hmap := List.map_mergeSort (f := f) (r := (rowRanking d c.toList).le)
    (s := fun a b ↦ keyOrder [d] a.1 b.1 != .gt) (l := List.range n) ?_
  · have harrange : arrange [d] (keyRows n [c]) (List.range n) =
        (((List.range n).map f).mergeSort fun a b ↦ keyOrder [d] a.1 b.1 != .gt).map (·.2) := rfl
    rw [harrange, ← hmap, List.map_map]
    exact List.map_id _
  · intro i hi j hj
    rw [List.mem_range] at hi hj
    simp only [f, keyRows_getElem? hi, keyRows_getElem? hj, List.map_cons, List.map_nil]
    exact (keyOrder_ne_gt (h i hi) (h j hj)).symm

end Frame

theorem Datum.sameList_iff {xs ys : List Datum} (hx : ∀ d ∈ xs, d.isScalar = true)
    (hy : ∀ d ∈ ys, d.isScalar = true) :
    Datum.sameList xs ys = true ↔ xs.map Datum.place = ys.map Datum.place := by
  induction xs generalizing ys with
  | nil => cases ys <;> simp [Datum.sameList]
  | cons x xs ih =>
    cases ys with
    | nil => simp [Datum.sameList]
    | cons y ys =>
      obtain ⟨hx, hxs⟩ := List.forall_mem_cons.mp hx
      obtain ⟨hy, hys⟩ := List.forall_mem_cons.mp hy
      rw [Datum.sameList, Bool.and_eq_true, Datum.same_iff hx hy, ih hxs hys]
      simp

namespace Group

variable {key : List Datum} {row : Nat} {gs : List Group} {keys : Nat → List Datum}
  {rows : List Nat}

def places (g : Group) : List ((Int ×ₗ Int) ×ₗ String) := g.key.map Datum.place

def Plain (gs : List Group) : Prop := ∀ g ∈ gs, ∀ d ∈ g.key, d.isScalar = true

theorem insert_of_notMem (hkey : ∀ d ∈ key, d.isScalar = true) (hgs : Plain gs)
    (h : key.map Datum.place ∉ gs.map places) : insert key row gs = gs ++ [⟨key, [row]⟩] := by
  induction gs with
  | nil => rfl
  | cons g gs ih =>
    obtain ⟨hg, hgs⟩ := List.forall_mem_cons.mp hgs
    rw [List.map_cons, List.mem_cons, not_or] at h
    have hne : ¬Datum.sameList g.key key = true := fun hsame ↦
      h.1 ((Datum.sameList_iff hg hkey).mp hsame).symm
    rw [insert, if_neg hne, ih hgs h.2, List.cons_append]

def extend (key : List Datum) (row : Nat) (g : Group) : Group :=
  if g.places = key.map Datum.place then ⟨g.key, g.rows ++ [row]⟩ else g

theorem insert_of_mem (hkey : ∀ d ∈ key, d.isScalar = true) (hgs : Plain gs)
    (hnodup : (gs.map places).Nodup) (h : key.map Datum.place ∈ gs.map places) :
    insert key row gs = gs.map (extend key row) := by
  induction gs with
  | nil => cases h
  | cons g gs ih =>
    obtain ⟨hg, hgs⟩ := List.forall_mem_cons.mp hgs
    obtain ⟨hnew, hnodup⟩ := List.nodup_cons.mp hnodup
    rw [insert, List.map_cons]
    by_cases hplace : g.places = key.map Datum.place
    · -- no other group has the key
      have hrest : gs.map (extend key row) = gs := by
        refine (List.map_congr_left fun k hk ↦ if_neg fun hk' ↦ hnew ?_).trans (List.map_id gs)
        rw [hplace, ← hk']
        exact List.mem_map_of_mem hk
      rw [if_pos ((Datum.sameList_iff hg hkey).mpr hplace), hrest, extend, if_pos hplace]
    · rw [if_neg (fun hsame ↦ hplace ((Datum.sameList_iff hg hkey).mp hsame)), extend,
        if_neg hplace, ih hgs hnodup]
      exact (List.mem_cons.mp h).resolve_left (Ne.symm hplace)

/-- Whether groups are those of some rows: one for each key, with its rows in their order. -/
structure Grouped (keys : Nat → List Datum) (rows : List Nat) (gs : List Group) : Prop where
  plain : Plain gs
  nodup : (gs.map places).Nodup
  members : ∀ g ∈ gs, g.rows = rows.filter fun j ↦ (keys j).map Datum.place = g.places
  all : ∀ i ∈ rows, (keys i).map Datum.place ∈ gs.map places

theorem grouped_nil : Grouped keys [] [] where
  plain := by simp [Plain]
  nodup := List.nodup_nil
  members := by simp
  all := by simp

@[simp] theorem places_extend (g : Group) : (extend key row g).places = g.places := by
  unfold extend
  split <;> rfl

theorem Grouped.insert (h : Grouped keys rows gs) (hkey : ∀ d ∈ keys row, d.isScalar = true) :
    Grouped keys (rows ++ [row]) (Group.insert (keys row) row gs) := by
  by_cases hmem : (keys row).map Datum.place ∈ gs.map places
  · rw [insert_of_mem hkey h.plain h.nodup hmem]
    have hplaces : (gs.map (extend (keys row) row)).map places = gs.map places := by
      simp [Function.comp_def]
    constructor
    · refine List.forall_mem_map.mpr fun g hg ↦ ?_
      unfold extend
      split <;> exact h.plain g hg
    · rw [hplaces]
      exact h.nodup
    · refine List.forall_mem_map.mpr fun g hg ↦ ?_
      rw [places_extend, List.filter_append, ← h.members g hg, extend]
      split
      · next heq => rw [List.filter_cons_of_pos (by simp [heq]), List.filter_nil]
      · next hne =>
        rw [List.filter_cons_of_neg (by simpa using Ne.symm hne), List.filter_nil, List.append_nil]
    · rw [hplaces]
      exact List.forall_mem_append.mpr ⟨h.all, List.forall_mem_singleton.mpr hmem⟩
  · rw [insert_of_notMem hkey h.plain hmem]
    have hplaces : (gs ++ [(⟨keys row, [row]⟩ : Group)]).map places =
        gs.map places ++ [(keys row).map Datum.place] := by
      simp [places]
    constructor
    · exact List.forall_mem_append.mpr ⟨h.plain, List.forall_mem_singleton.mpr hkey⟩
    · rw [hplaces, List.nodup_append_comm]
      exact List.nodup_cons.mpr ⟨hmem, h.nodup⟩
    · refine List.forall_mem_append.mpr ⟨fun g hg ↦ ?_, List.forall_mem_singleton.mpr ?_⟩
      · have hne : (keys row).map Datum.place ≠ g.places := fun heq ↦
          hmem (heq ▸ List.mem_map_of_mem hg)
        rw [List.filter_append, ← h.members g hg, List.filter_cons_of_neg (by simpa using hne),
          List.filter_nil, List.append_nil]
      · -- no row before has the key
        have hnone : rows.filter (fun j ↦
            (keys j).map Datum.place = (keys row).map Datum.place) = [] :=
          List.filter_eq_nil_iff.mpr fun j hj heq ↦ hmem (by
            rw [← of_decide_eq_true heq]
            exact h.all j hj)
        rw [List.filter_append, places, hnone, List.filter_cons_of_pos (by simp), List.filter_nil,
          List.nil_append]
    · rw [hplaces]
      exact List.forall_mem_append.mpr ⟨fun i hi ↦ List.mem_append_left _ (h.all i hi),
        List.forall_mem_singleton.mpr (by simp)⟩

theorem grouped_ofRows (table : List (List Datum)) (rows : List Nat)
    (h : ∀ i ∈ rows, ∀ d ∈ (table[i]?).getD [], d.isScalar = true) :
    Grouped (fun i ↦ (table[i]?).getD []) rows (ofRows table rows) := by
  induction rows using List.reverseRecOn with
  | nil => exact grouped_nil
  | append_singleton rows row ih =>
    have hrow : ∀ d ∈ (table[row]?).getD [], d.isScalar = true := h row (by simp)
    have hpresent : ¬((table[row]?).getD []).any Datum.isMissing = true := by
      simpa using fun d hd ↦ Frame.isMissing_of_isScalar (hrow d hd)
    rw [ofRows, List.foldl_append, List.foldl_cons, List.foldl_nil]
    simp only [if_neg hpresent]
    exact (ih fun i hi ↦ h i (List.mem_append_left _ hi)).insert hrow

end Group

namespace Frame

variable {vals : List Nat → List Datum} {ns : List String}

/-- Whether a frame is a relation with some columns: the names are different, no cell is missing and
the rows are in the order of their index. -/
structure Filled (f : Frame) (names : List String) : Prop where
  labels : f.labels = names.map .text
  nodup : names.Nodup
  full : ∀ x ∈ f.columns, x.2.length = f.height
  scalar : ∀ x ∈ f.columns, ∀ d ∈ x.2.toList, d.isScalar = true
  ascending : f.index.Pairwise (· ≤ ·)

def columnOf (f : Frame) (name : String) : Column := (f.column? (.text name)).getD (.mixed [])

def cell (f : Frame) (name : String) (i : Nat) : Datum := cellAt (f.columnOf name).toList i

def peers (f : Frame) (names : List String) (i j : Nat) : Bool :=
  names.all fun n ↦ (f.cell n i).same (f.cell n j)

variable {f : Frame} {names : List String} {name : String} {i j : Nat}

theorem length_toList (c : Column) : c.toList.length = c.length := by
  cases c <;> simp [Column.toList, Column.length]

theorem filter_same {α : Type} {xs : List (Label × α)} (h : xs.map Prod.fst = names.map .text)
    (hnodup : names.Nodup) (hname : name ∈ names) :
    ∃ x, xs[names.idxOf name]? = some x ∧ xs.filter (·.1.same (.text name)) = [x] := by
  induction names generalizing xs with
  | nil => cases hname
  | cons n names ih =>
    obtain ⟨x, xs, rfl, hx, hxs⟩ := List.map_eq_cons_iff.mp h
    obtain ⟨hnew, hnodup⟩ := List.nodup_cons.mp hnodup
    rcases eq_or_ne n name with rfl | hne
    · have hnone : xs.filter (·.1.same (.text n)) = [] := by
        refine List.filter_eq_nil_iff.mpr fun y hy hsame ↦ hnew ?_
        have hmem : y.1 ∈ names.map Datum.text := hxs ▸ List.mem_map_of_mem hy
        obtain ⟨t, ht, hyt⟩ := List.mem_map.mp hmem
        rw [← hyt, Datum.same_text, beq_iff_eq] at hsame
        exact hsame ▸ ht
      refine ⟨x, by simp, ?_⟩
      rw [List.filter_cons_of_pos (by simp [hx]), hnone]
    · obtain ⟨y, hy, hfilter⟩ := ih hxs hnodup (List.mem_of_ne_of_mem hne.symm hname)
      refine ⟨y, by rw [List.idxOf_cons_ne _ hne]; exact hy, ?_⟩
      rw [List.filter_cons_of_neg (by simpa [hx] using hne), hfilter]

theorem Filled.column_eq (h : f.Filled names) (hname : name ∈ names) :
    f.column (.text name) = .ok (f.columnOf name) ∧
      ∃ l, f.columns[names.idxOf name]? = some (l, f.columnOf name) := by
  obtain ⟨x, hx, hfilter⟩ := filter_same h.labels h.nodup hname
  have hcolumn : f.columnOf name = x.2 := by
    rw [columnOf, column?, ← List.head?_filter, hfilter]
    rfl
  rw [column, hfilter, hcolumn]
  exact ⟨rfl, x.1, hx⟩

theorem Filled.mapM_column (h : f.Filled names) (hns : ns ⊆ names) :
    (ns.map Datum.text).mapM f.column = .ok (ns.map f.columnOf) := by
  rw [List.mapM_map]
  exact Outcome.mapM_ok fun n hn ↦ (h.column_eq (hns hn)).1

theorem Filled.length_columnOf (h : f.Filled names) (hname : name ∈ names) :
    (f.columnOf name).length = f.height := by
  obtain ⟨-, l, hmem⟩ := h.column_eq hname
  exact h.full _ (List.mem_of_getElem? hmem)

theorem Filled.scalar_cell (h : f.Filled names) (hname : name ∈ names) (hi : i < f.height) :
    (f.cell name i).isScalar = true := by
  obtain ⟨-, l, hmem⟩ := h.column_eq hname
  have hlt : i < (f.columnOf name).toList.length := by
    rwa [length_toList, h.length_columnOf hname]
  rw [cell, cellAt, List.getElem?_eq_getElem hlt, Option.getD_some]
  exact h.scalar _ (List.mem_of_getElem? hmem) _ (List.getElem_mem hlt)

def ranking (f : Frame) (d : Direction) (name : String) : Ranking Nat :=
  rowRanking d (f.columnOf name).toList

theorem ranking_asc : (f.ranking .asc name).le i j = true ↔
    (f.cell name i).place ≤ (f.cell name j).place := decide_eq_true_iff

theorem ranking_desc : (f.ranking .desc name).le i j = true ↔
    (f.cell name j).place ≤ (f.cell name i).place := decide_eq_true_iff

theorem Filled.sortedRows (h : f.Filled names) (hname : name ∈ names) (d : Direction) :
    f.sortedRows [(.text name, d)] = if orderable (f.columnOf name).toList then
      .ok ((f.ranking d name).sort (List.range f.height)) else .error .kind := by
  have hcolumn : [(Datum.text name, d)].mapM (fun x ↦ f.column x.1) = .ok [f.columnOf name] := by
    rw [List.mapM_cons, (h.column_eq hname).1]
    rfl
  have harrange : arrange [d] (keyRows f.height [f.columnOf name]) (List.range f.height) =
      (f.ranking d name).sort (List.range f.height) :=
    arrange_eq_sort fun i hi ↦ h.scalar_cell hname hi
  unfold Frame.sortedRows
  rw [hcolumn, Outcome.ok_bind, List.all_cons, List.all_nil, Bool.and_true, List.map_singleton,
    harrange]
  rfl

/-- Whether lists of rows are the classes of rows that are peers, each in a given order. -/
structure Divides (peer : Nat → Nat → Bool) (order : List Nat) (parts : List (List Nat)) :
    Prop where
  own : ∀ part ∈ parts, ∀ i ∈ part, part = order.filter (peer i)
  all : ∀ i ∈ order, order.filter (peer i) ∈ parts

theorem Filled.peers_iff (h : f.Filled names) (hns : ns ⊆ names) (hi : i < f.height)
    (hj : j < f.height) :
    f.peers ns i j = true ↔
      ns.map (fun n ↦ (f.cell n i).place) = ns.map fun n ↦ (f.cell n j).place := by
  rw [peers, List.all_eq_true, List.map_inj_left]
  exact forall₂_congr fun n hn ↦
    Datum.same_iff (h.scalar_cell (hns hn) hi) (h.scalar_cell (hns hn) hj)

theorem Filled.partitions (h : f.Filled names) {w : WindowSpec} (hw : w.partitionBy = ns.map .text)
    (hns : ns ⊆ names) {order : List Nat} (horder : ∀ i ∈ order, i < f.height) :
    ∃ parts, f.partitions w order = .ok parts ∧ Divides (f.peers ns) order parts := by
  unfold Frame.partitions
  split
  · next hempty =>
    obtain rfl : ns = [] := by simpa [hw] using hempty
    have hself : ∀ i, order.filter (f.peers [] i) = order := fun i ↦
      List.filter_eq_self.mpr fun j _ ↦ rfl
    refine ⟨[order], rfl, List.forall_mem_singleton.mpr fun i _ ↦ (hself i).symm, fun i _ ↦ ?_⟩
    exact List.mem_singleton.mpr (hself i)
  · rw [hw, h.mapM_column hns]
    refine ⟨_, rfl, ?_⟩
    have hkeys : ∀ i ∈ order, ((keyRows f.height (ns.map f.columnOf))[i]?).getD [] =
        ns.map fun n ↦ f.cell n i := fun i hi ↦ by
      rw [keyRows_getElem? (horder i hi), List.map_map]
      rfl
    have hgroups := Group.grouped_ofRows (keyRows f.height (ns.map f.columnOf)) order fun i hi ↦ by
        rw [hkeys i hi]
        exact List.forall_mem_map.mpr fun n hn ↦ h.scalar_cell (hns hn) (horder i hi)
    -- rows of the same group are peers
    have hpeer : ∀ i ∈ order, ∀ g : Group, (ns.map fun n ↦ (f.cell n i).place) = g.places →
        (order.filter fun j ↦
          (((keyRows f.height (ns.map f.columnOf))[j]?).getD []).map Datum.place = g.places) =
          order.filter (f.peers ns i) := by
      intro i hi g hg
      refine List.filter_congr fun j hj ↦ ?_
      rw [hkeys j hj, List.map_map, Bool.eq_iff_iff, decide_eq_true_iff, ← hg,
        h.peers_iff hns (horder i hi) (horder j hj), eq_comm]
      rfl
    refine ⟨List.forall_mem_map.mpr fun g hg i hi ↦ ?_, fun i hi ↦ ?_⟩
    · rw [hgroups.members g hg, List.mem_filter, decide_eq_true_iff] at hi
      obtain ⟨hi, hplaces⟩ := hi
      rw [hgroups.members g hg]
      rw [hkeys i hi, List.map_map] at hplaces
      exact hpeer i hi g hplaces
    · have hmem := hgroups.all i hi
      rw [hkeys i hi, List.map_map] at hmem
      obtain ⟨g, hg, hplaces⟩ := List.mem_map.mp hmem
      rw [← hpeer i hi g hplaces.symm, ← hgroups.members g hg]
      exact List.mem_map_of_mem hg

theorem lookup_eq_some {ps : List (Nat × Datum)} {v : Datum} (hmem : (i, v) ∈ ps)
    (huniq : ∀ p ∈ ps, p.1 = i → p.2 = v) : ps.lookup i = some v := by
  induction ps with
  | nil => cases hmem
  | cons p ps ih =>
    obtain ⟨hp, hps⟩ := List.forall_mem_cons.mp huniq
    obtain ⟨k, u⟩ := p
    rcases eq_or_ne i k with rfl | hne
    · rw [List.lookup_cons_self]
      exact congrArg some (hp rfl)
    · rw [List.lookup_cons, beq_eq_false_iff_ne.mpr hne]
      refine ih ?_ hps
      rcases List.mem_cons.mp hmem with heq | hmem
      · exact absurd (congrArg Prod.fst heq) hne
      · exact hmem

variable {peer : Nat → Nat → Bool} {order : List Nat} {parts : List (List Nat)}

theorem Divides.scatter_eq (h : Divides peer order parts) (hnodup : order.Nodup)
    (hrefl : ∀ i ∈ order, peer i i = true) {n : Nat} (hn : ∀ i < n, i ∈ order)
    (hlen : ∀ part ∈ parts, (vals part).length = part.length) :
    scatter n (parts.map fun part ↦ (part, vals part)) = (List.range n).map fun i ↦
      cellAt (vals (order.filter (peer i))) ((order.filter (peer i)).idxOf i) := by
  refine List.map_congr_left fun i hi ↦ ?_
  have hi := hn i (List.mem_range.mp hi)
  have hpart := h.all i hi
  have hmem : i ∈ order.filter (peer i) := List.mem_filter.mpr ⟨hi, hrefl i hi⟩
  -- a row stands in one part only, and there in one place
  have hplace : ∀ part ∈ parts, ∀ q ∈ part.zip (vals part), q.1 = i →
      q.2 = cellAt (vals (order.filter (peer i))) ((order.filter (peer i)).idxOf i) := by
    intro part hp q hq hqi
    obtain ⟨k, hk, rfl⟩ := List.getElem_of_mem hq
    rw [List.length_zip, lt_min_iff] at hk
    rw [List.getElem_zip] at hqi ⊢
    dsimp only at hqi ⊢
    have hown := h.own part hp i (hqi ▸ List.getElem_mem hk.1)
    have hidx : part.idxOf i = k := by
      rw [← hqi]
      exact (hown ▸ hnodup.filter _ : part.Nodup).idxOf_getElem k hk.1
    rw [← hown, hidx, cellAt, List.getElem?_eq_getElem hk.2]
    rfl
  have hlt := List.idxOf_lt_length_of_mem hmem
  have hlookup : ((parts.map fun part ↦ (part, vals part)).flatMap fun x ↦ x.1.zip x.2).lookup i =
      some (cellAt (vals (order.filter (peer i))) ((order.filter (peer i)).idxOf i)) := by
    rw [List.flatMap_map]
    refine lookup_eq_some (List.mem_flatMap.mpr ⟨_, hpart, ?_⟩) fun q hq hqi ↦ ?_
    · have hlen := hlen _ hpart
      refine List.mem_iff_getElem.mpr ⟨(order.filter (peer i)).idxOf i, ?_, ?_⟩
      · rwa [List.length_zip, hlen, min_self]
      · rw [List.getElem_zip, List.getElem_idxOf, cellAt, List.getElem?_eq_getElem (by rwa [hlen])]
        rfl
    · obtain ⟨part, hp, hq⟩ := List.mem_flatMap.mp hq
      exact hplace part hp q hq hqi
  exact congrArg (·.getD .null) hlookup

theorem overParts_eq {source : Column} {g : Column → Outcome (List Datum)}
    (h : ∀ part ∈ parts, g (source.pick part) = .ok (vals part)) :
    f.overParts parts source g =
      .ok (scatter f.height (parts.map fun part ↦ (part, vals part))) := by
  unfold overParts
  rw [Outcome.mapM_ok (g := fun part ↦ (part, vals part)) fun part hpart ↦ by
    rw [h part hpart]
    rfl]
  rfl

end Frame

end Gridplan
