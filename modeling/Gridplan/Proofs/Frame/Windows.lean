import Gridplan.Proofs.Frame.Places

namespace Gridplan

open Outcome (ok_bind)

namespace Frame

variable {f : Frame} {names : List String} {name : String} {i j : Nat}
variable {rows : List Nat} {c : Column} {α : Type}

theorem filterMap_range (xs : List α) : (List.range xs.length).filterMap (xs[·]?) = xs := by
  induction xs with
  | nil => rfl
  | cons x xs ih =>
    have hzero : (x :: xs)[0]? = some x := rfl
    rw [List.length_cons, List.range_succ_eq_map, List.filterMap_cons_some hzero,
      List.filterMap_map]
    exact congrArg (x :: ·) ih

theorem pick_range (c : Column) : c.pick (List.range c.length) = c := by
  cases c <;> simp [Column.pick, Column.rearrange, Column.length, filterMap_range]

theorem pick_height (hfull : ∀ x ∈ f.columns, x.2.length = f.height) :
    f.pick (List.range f.height) = f := by
  have hcolumns : (f.columns.map fun x ↦ (x.1, x.2.pick (List.range f.height))) = f.columns := by
    refine (List.map_congr_left fun x hx ↦ ?_).trans (List.map_id _)
    rw [← hfull x hx, pick_range]
    rfl
  exact congrArg₂ Frame.mk hcolumns (filterMap_range f.index)

theorem sortIndex_eq_self (hfull : ∀ x ∈ f.columns, x.2.length = f.height)
    (hasc : f.index.Pairwise (· ≤ ·)) : f.sortIndex = f := by
  have hsorted : f.index.zipIdx.Pairwise fun a b ↦ decide (a.1 ≤ b.1) = true := by
    simp only [decide_eq_true_eq]
    rw [← List.pairwise_map (f := Prod.fst), List.zipIdx_map_fst]
    exact hasc
  rw [sortIndex, List.mergeSort_of_pairwise hsorted, List.zipIdx_map_snd, ← List.range_eq_range']
  exact pick_height hfull

theorem eq_of_mem_setColumn {l : Label} {x : Label × Column} (hx : x ∈ (f.setColumn l c).columns)
    (hsame : x.1.same l = true) : x.2 = c := by
  unfold setColumn at hx
  split at hx
  · obtain ⟨p, -, rfl⟩ := List.mem_map.mp hx
    by_cases hp : p.1.same l = true
    · rw [if_pos hp]
    · rw [if_neg hp] at hsame
      exact absurd hsame hp
  · next hnone =>
    rcases List.mem_append.mp hx with hx | hx
    · exact absurd (List.any_eq_true.mpr ⟨x, hx, hsame⟩) hnone
    · rw [List.mem_singleton.mp hx]

theorem full_setColumn {l : Label} (hfull : ∀ x ∈ f.columns, x.2.length = f.height)
    (hc : c.length = f.height) : ∀ x ∈ (f.setColumn l c).columns, x.2.length = f.height := by
  intro x hx
  unfold setColumn at hx
  split at hx
  · obtain ⟨p, hp, rfl⟩ := List.mem_map.mp hx
    split
    · exact hc
    · exact hfull p hp
  · rcases List.mem_append.mp hx with hx | hx
    · exact hfull x hx
    · rw [List.mem_singleton.mp hx]
      exact hc

theorem Filled.window_eq (h : f.Filled names) {w : WindowSpec} {values : Column} {output : String}
    (hout : w.output = .text output) (hvalues : f.windowValues w = .ok values)
    (hlen : values.length = f.height) :
    ∃ g, f.window w = .ok g ∧ g.height = f.height ∧ g.column (.text output) = .ok values := by
  have hindex : (f.setColumn w.output values).index = f.index := by
    unfold setColumn
    split <;> rfl
  have hheight : (f.setColumn w.output values).height = f.height := congrArg List.length hindex
  have hself : (f.setColumn w.output values).sortIndex = f.setColumn w.output values :=
    sortIndex_eq_self (by rw [hheight]; exact full_setColumn h.full hlen) (hindex ▸ h.ascending)
  refine ⟨(f.setColumn w.output values).renumber, ?_, ?_, ?_⟩
  · unfold window
    rw [hvalues, ok_bind, hself]
    rfl
  · simp [renumber, height, numbered, hindex]
  · obtain ⟨ns, hlabels, hnodup, hmem⟩ : ∃ ns : List String,
        (f.setColumn w.output values).labels = ns.map .text ∧ ns.Nodup ∧ output ∈ ns := by
      rw [labels_setColumn, hout, h.labels, withLabel, Datum.isIn_texts]
      split
      · next hin => exact ⟨names, rfl, h.nodup, by simpa using hin⟩
      · next hin =>
        refine ⟨names ++ [output], by simp, ?_, by simp⟩
        rw [List.nodup_append_comm]
        exact List.nodup_cons.mpr ⟨by simpa using hin, h.nodup⟩
    obtain ⟨x, -, hfilter⟩ := filter_same hlabels hnodup hmem
    have hx : x ∈ (f.setColumn w.output values).columns ∧ x.1.same (.text output) = true :=
      List.mem_filter.mp (hfilter ▸ List.mem_singleton_self x)
    have hcolumns : (f.setColumn w.output values).renumber.columns =
        (f.setColumn w.output values).columns := rfl
    rw [column, hcolumns, hfilter]
    exact congrArg Except.ok (eq_of_mem_setColumn hx.1 (hout ▸ hx.2))

variable {ns : List String} {d : Direction} {order : String}

/-- The rows of a row's partition, in order. -/
def partOf (f : Frame) (ns : List String) (d : Direction) (order : String) (i : Nat) : List Nat :=
  ((f.ranking d order).sort (List.range f.height)).filter (f.peers ns i)

def rowsTo (f : Frame) (ns : List String) (d : Direction) (order : String) (i : Nat) : List Nat :=
  (f.partOf ns d order i).take ((f.partOf ns d order i).idxOf i + 1)

theorem mem_sort {R : Ranking Nat} {n : Nat} : i ∈ R.sort (List.range n) ↔ i < n := by
  rw [(R.sort_perm _).mem_iff, List.mem_range]

theorem nodup_sort (R : Ranking Nat) (n : Nat) : (R.sort (List.range n)).Nodup :=
  (R.sort_perm _).nodup_iff.mpr List.nodup_range

theorem Filled.mem_partOf (h : f.Filled names) (hns : ns ⊆ names) (hi : i < f.height) :
    i ∈ f.partOf ns d order i :=
  List.mem_filter.mpr ⟨mem_sort.mpr hi, (h.peers_iff hns hi hi).mpr rfl⟩

theorem nodup_partOf : (f.partOf ns d order i).Nodup := (nodup_sort _ _).filter _

theorem Filled.partOf_eq (h : f.Filled names) (hns : ns ⊆ names) (hi : i < f.height)
    (hj : j < f.height) (hij : f.peers ns i j = true) :
    f.partOf ns d order j = f.partOf ns d order i := by
  refine List.filter_congr fun k hk ↦ ?_
  have hk := mem_sort.mp hk
  rw [Bool.eq_iff_iff, h.peers_iff hns hj hk, h.peers_iff hns hi hk,
    (h.peers_iff hns hi hj).mp hij]

theorem map_idxOf_of_nodup {l : List Nat} (h : l.Nodup) :
    l.map (l.idxOf ·) = List.range l.length := by
  refine List.ext_getElem (by simp) fun k hk hk' ↦ ?_
  rw [List.getElem_map, List.getElem_range, h.idxOf_getElem]

theorem Filled.perm_numbers (h : f.Filled names) (hns : ns ⊆ names) (d : Direction) (order : String)
    (hi : i < f.height) :
    (((List.range f.height).filter (f.peers ns i)).map fun j ↦
      (f.partOf ns d order j).idxOf j + 1).Perm
        (List.range' 1 ((List.range f.height).filter (f.peers ns i)).length) := by
  have hperm : ((List.range f.height).filter (f.peers ns i)).Perm (f.partOf ns d order i) :=
    ((Ranking.sort_perm _ _).filter _).symm
  have hsame : ((List.range f.height).filter (f.peers ns i)).map (fun j ↦
      (f.partOf ns d order j).idxOf j + 1) =
        ((List.range f.height).filter (f.peers ns i)).map
          ((f.partOf ns d order i).idxOf · + 1) := by
    refine List.map_congr_left fun j hj ↦ ?_
    obtain ⟨hj, hij⟩ := List.mem_filter.mp hj
    rw [h.partOf_eq hns hi (List.mem_range.mp hj) hij]
  have hrange : List.range' 1 (f.partOf ns d order i).length =
      (f.partOf ns d order i).map ((f.partOf ns d order i).idxOf · + 1) := by
    rw [List.range'_eq_map_range, ← map_idxOf_of_nodup nodup_partOf, List.map_map]
    exact List.map_congr_left fun j _ ↦ Nat.add_comm _ _
  rw [hsame, hperm.length_eq, hrange]
  exact hperm.map _

theorem mapM_some {α β : Type} {g : α → Option β} {k : α → β} {xs : List α}
    (h : ∀ x ∈ xs, g x = some (k x)) : xs.mapM g = some (xs.map k) := by
  induction xs with
  | nil => rfl
  | cons x xs ih =>
    obtain ⟨hx, hxs⟩ := List.forall_mem_cons.mp h
    rw [List.mapM_cons, hx, ih hxs]
    rfl

theorem exists_of_mapM {α β : Type} {g : α → Option β} {xs : List α} {ys : List β} {i : Nat} {x : α}
    (h : xs.mapM g = some ys) (hx : xs[i]? = some x) : ∃ y, g x = some y ∧ ys[i]? = some y := by
  obtain ⟨hi, rfl⟩ := List.getElem?_eq_some_iff.mp hx
  have hread := mapM_eq_some_forall₂ h
  have hi' : i < ys.length := hread.length_eq ▸ hi
  exact ⟨ys[i], hread.get hi hi', List.getElem?_eq_getElem hi'⟩

theorem mapM_ints {β : Type} {g : Datum → Option β} {h : Int → β}
    (hg : ∀ n, g (.int n) = if Column.fits n then some (h n) else none) (ks : List Int) :
    (ks.map Datum.int).mapM g = if ks.all Column.fits then some (ks.map h) else none := by
  induction ks with
  | nil => rfl
  | cons k ks ih =>
    rw [List.map_cons, List.mapM_cons, hg, ih, List.all_cons]
    cases Column.fits k <;> cases ks.all Column.fits <;> rfl

theorem toList_ofList_ints (ks : List Int) :
    (Column.ofList (ks.map .int)).toList = ks.map .int := by
  have hints := mapM_ints (g := Column.int?) (h := id) (fun n ↦ rfl) ks
  have hfloats := mapM_ints (g := Column.float?) (h := Float.ofInt) (fun n ↦ rfl) ks
  cases ks with
  | nil => rfl
  | cons k ks =>
    have hbools : ((k :: ks).map Datum.int).mapM Column.bool? = none := rfl
    unfold Column.ofList
    rw [hints, hfloats, hbools]
    cases (k :: ks).all Column.fits
    · rfl
    · exact congrArg (List.map Datum.int) (List.map_id (k :: ks))

theorem windowColumn_floats (xs : List Datum) :
    windowColumn (.floats []) xs = if xs.all (· == .null) then .floats (xs.map fun _ ↦ Column.nan)
      else Column.ofList xs := rfl

theorem toList_windowColumn_ints (ks : List Int) :
    (windowColumn (.floats []) (ks.map .int)).toList = ks.map .int := by
  cases ks with
  | nil => rfl
  | cons k ks =>
    have hnull : ¬(((k :: ks).map Datum.int).all (· == .null)) = true := by simp
    rw [windowColumn_floats, if_neg hnull, toList_ofList_ints]

theorem toList_windowColumn_floats (xs : List Float) :
    (windowColumn (.floats []) (xs.map .float)).toList = xs.map .float := by
  cases xs with
  | nil => rfl
  | cons x xs =>
    have hnull : ¬(((x :: xs).map Datum.float).all (· == .null)) = true := by simp
    have hints : ((x :: xs).map Datum.float).mapM Column.int? = none := rfl
    have hbools : ((x :: xs).map Datum.float).mapM Column.bool? = none := rfl
    have hfloats : ((x :: xs).map Datum.float).mapM Column.float? = some (x :: xs) := by
      rw [List.mapM_map]
      exact (mapM_some fun y _ ↦ rfl).trans (congrArg some (List.map_id _))
    have hcolumn : Column.ofList ((x :: xs).map .float) = .floats (x :: xs) := by
      unfold Column.ofList
      rw [hints, hbools, hfloats]
      simp
    rw [windowColumn_floats, if_neg hnull, hcolumn]
    rfl

def windowOf (func input output : String) (ns : List String) (order : String) (d : Direction)
    (frame : Datum) : WindowSpec :=
  ⟨func, some (.text input), .text output, ns.map .text, [(.text order, d)], frame⟩

variable {func input output : String} {frame : Datum}

theorem Filled.windowValues_kind (h : f.Filled names) (horder : order ∈ names)
    (hkind : orderable (f.columnOf order).toList = false) :
    f.windowValues (windowOf func input output ns order d frame) = .error .kind := by
  unfold windowValues
  rw [windowOf, h.sortedRows horder, if_neg (by simp [hkind])]
  rfl

/-- What a window function of a column is computed from: the column itself, and the partitions of
the rows in order. -/
theorem Filled.window_parts (h : f.Filled names) (w : WindowSpec)
    (hw : w.partitionBy = ns.map .text) (hns : ns ⊆ names) (horder : order ∈ names) (d : Direction)
    (hkind : orderable (f.columnOf order).toList = true) :
    ∃ rows parts, f.sortedRows [(.text order, d)] = .ok rows ∧ f.partitions w rows = .ok parts ∧
      (∀ part ∈ parts, part.Nodup ∧ ∀ i ∈ part, i < f.height) ∧
      ∀ vals : List Nat → List Datum, (∀ part ∈ parts, (vals part).length = part.length) →
        scatter f.height (parts.map fun part ↦ (part, vals part)) =
          (List.range f.height).map fun i ↦
            cellAt (vals (f.partOf ns d order i)) ((f.partOf ns d order i).idxOf i) := by
  have hsorted := h.sortedRows horder d
  rw [if_pos hkind] at hsorted
  have hlt : ∀ i ∈ (f.ranking d order).sort (List.range f.height), i < f.height :=
    fun i hi ↦ mem_sort.mp hi
  obtain ⟨parts, hparts, hdivides⟩ := h.partitions hw hns hlt
  refine ⟨_, parts, hsorted, hparts, fun part hpart ↦ ?_, fun vals hvals ↦ ?_⟩
  · have hpart : ∀ i ∈ part, part = f.partOf ns d order i := hdivides.own part hpart
    refine ⟨?_, fun i hi ↦ ?_⟩
    · rcases part with - | ⟨i, part⟩
      · exact List.nodup_nil
      · rw [hpart i List.mem_cons_self]
        exact nodup_partOf
    · rw [hpart i hi] at hi
      exact hlt i (List.mem_of_mem_filter hi)
  · exact hdivides.scatter_eq (nodup_sort _ _)
      (fun i hi ↦ (h.peers_iff hns (hlt i hi) (hlt i hi)).mpr rfl) (fun i hi ↦ mem_sort.mpr hi)
      hvals

theorem Filled.windowValues_rowNumber (h : f.Filled names) (hns : ns ⊆ names)
    (horder : order ∈ names) (hinput : input ∈ names)
    (hkind : orderable (f.columnOf order).toList = true) :
    ∃ column, f.windowValues (windowOf "row_number" input output ns order d frame) = .ok column ∧
      column.toList = (List.range f.height).map fun i ↦
        .int ((f.partOf ns d order i).idxOf i + 1 : Nat) := by
  obtain ⟨rows, parts, hsorted, hparts, -, hscatter⟩ := h.window_parts
    (windowOf "row_number" input output ns order d frame) rfl hns horder d hkind
  let vals (part : List Nat) : List Datum := (List.range part.length).map fun i ↦ .int (i + 1 : Nat)
  refine ⟨windowColumn (.floats []) (scatter f.height (parts.map fun part ↦ (part, vals part))),
    ?_, ?_⟩
  · unfold windowValues
    simp only [windowOf] at hparts ⊢
    simp only [hsorted, ok_bind, (h.column_eq hinput).1, hparts]
    simp only [Outcome.pure_eq, ok_bind, ite_self]
    exact if_neg (by simp)
  · have hcell : ∀ i < f.height, cellAt (vals (f.partOf ns d order i))
        ((f.partOf ns d order i).idxOf i) = .int ((f.partOf ns d order i).idxOf i + 1 : Nat) := by
      intro i hi
      have hlt : (f.partOf ns d order i).idxOf i < (f.partOf ns d order i).length :=
        List.idxOf_lt_length_of_mem (h.mem_partOf hns hi)
      simp [cellAt, vals, hlt]
    have hmap := List.map_congr_left fun i hi ↦ hcell i (List.mem_range.mp hi)
    rw [hscatter vals fun part _ ↦ by simp [vals], hmap]
    have hints := toList_windowColumn_ints
      ((List.range f.height).map fun i ↦ ((f.partOf ns d order i).idxOf i + 1 : Nat))
    rw [List.map_map] at hints
    exact hints

theorem filterMap_getElem? {xs : List α} (a : α) (h : ∀ i ∈ rows, i < xs.length) :
    rows.filterMap (xs[·]?) = rows.map fun i ↦ (xs[i]?).getD a := by
  rw [← List.filterMap_eq_map]
  refine List.filterMap_congr fun i hi ↦ ?_
  simp [List.getElem?_eq_getElem (h i hi)]

theorem toList_pick (h : ∀ i ∈ rows, i < c.length) :
    (c.pick rows).toList = rows.map (cellAt c.toList) := by
  rw [← length_toList] at h
  refine Eq.trans ?_ (filterMap_getElem? .null h)
  cases c <;> simp [Column.pick, Column.rearrange, Column.toList, List.map_filterMap]

def numberAt (xs : List Float) (i : Nat) : Float := (xs[i]?).getD 0

theorem numberAt_map {g : α → Float} {xs : List α} (h : ∀ i ∈ rows, i < xs.length) :
    (rows.filterMap (xs[·]?)).map g = rows.map (numberAt (xs.map g)) := by
  rw [← List.length_map g] at h
  rw [List.map_filterMap]
  refine Eq.trans ?_ (filterMap_getElem? 0 h)
  exact List.filterMap_congr fun i _ ↦ by simp

theorem floats?_pick {xs : List Float} (hc : c.floats? = some xs) (h : ∀ i ∈ rows, i < c.length) :
    (c.pick rows).floats? = some (rows.map (numberAt xs)) := by
  cases c with
  | ints ks =>
    obtain rfl := Option.some.inj hc
    exact congrArg some (numberAt_map h)
  | floats ys =>
    obtain rfl := Option.some.inj hc
    exact congrArg some (filterMap_getElem? 0 h)
  | bools bs =>
    obtain rfl := Option.some.inj hc
    exact congrArg some (numberAt_map h)
  | mixed ds =>
    have hpick : Column.pick rows (.mixed ds) = .mixed (rows.map (cellAt ds)) := by
      rw [Column.pick, Column.rearrange, filterMap_getElem? .null h]
      rfl
    rw [hpick]
    refine (List.mapM_map ..).trans (mapM_some fun i hi ↦ ?_)
    have hi : ds[i]? = some (cellAt ds i) := by
      rw [cellAt, List.getElem?_eq_getElem (h i hi)]
      rfl
    obtain ⟨y, hy, hys⟩ := exists_of_mapM hc hi
    rw [numberAt, hys]
    exact hy

theorem orderable_pick {cells : List Datum} (h : orderable cells = true) (hnodup : rows.Nodup)
    (hlt : ∀ i ∈ rows, i < cells.length) : orderable (rows.map (cellAt cells)) = true := by
  have hsub : (rows.map (cellAt cells)).Subperm cells := by
    have hrange : (List.range cells.length).map (cellAt cells) = cells :=
      (filterMap_getElem? Datum.null fun i hi ↦ List.mem_range.mp hi).symm.trans
        (filterMap_range cells)
    obtain ⟨l, hperm, hsub⟩ : rows.Subperm (List.range cells.length) :=
      hnodup.subperm fun i hi ↦ List.mem_range.mpr (hlt i hi)
    have hsub := hsub.map (cellAt cells)
    rw [hrange] at hsub
    exact ⟨l.map (cellAt cells), hperm.map _, hsub⟩
  have hpresent := hsub.filter (!·.isMissing)
  have hmem := hpresent.subset
  simp only [orderable, Bool.or_eq_true, decide_eq_true_eq, List.all_eq_true] at h ⊢
  rcases h with (h | h) | h
  · exact .inl (.inl (hpresent.length_le.trans_lt h))
  · exact .inl (.inr fun x hx ↦ h x (hmem hx))
  · exact .inr fun x hx ↦ h x (hmem hx)

theorem Filled.lt_cell (h : f.Filled names) (hname : name ∈ names) (hi : i < f.height)
    (hj : j < f.height) :
    ((f.cell name j).cellOrder (f.cell name i) == .lt) = !(f.ranking .asc name).le i j := by
  rw [Bool.eq_iff_iff, beq_iff_eq, Bool.not_eq_true', ← Bool.not_eq_true, ranking_asc, not_le]
  exact Datum.cellOrder_eq_lt (h.scalar_cell hname hj) (h.scalar_cell hname hi)

theorem Filled.ranks_pick (h : f.Filled names) (hname : name ∈ names)
    (hkind : orderable (f.columnOf name).toList = true) (hnodup : rows.Nodup)
    (hlt : ∀ i ∈ rows, i < f.height) :
    Column.ranks ((f.columnOf name).pick rows) = .ok (rows.map fun i ↦
      .int ((rows.countP fun j ↦ !(f.ranking .asc name).le i j) + 1 : Nat)) := by
  have hlen := h.length_columnOf hname
  have hcells : ((f.columnOf name).pick rows).toList = rows.map (f.cell name) :=
    toList_pick fun i hi ↦ hlen ▸ hlt i hi
  have horderable : orderable (rows.map (f.cell name)) = true :=
    orderable_pick hkind hnodup fun i hi ↦ by rw [length_toList, hlen]; exact hlt i hi
  have hpresent : ∀ i ∈ rows, (f.cell name i).isMissing = false := fun i hi ↦
    isMissing_of_isScalar (h.scalar_cell hname (hlt i hi))
  unfold Column.ranks
  simp only [hcells, horderable, Bool.not_true, Bool.false_eq_true, if_false, List.map_map]
  refine congrArg Except.ok (List.map_congr_left fun i hi ↦ ?_)
  have hcount : ((rows.map (f.cell name)).filter fun y ↦
      !y.isMissing && y.cellOrder (f.cell name i) == .lt).length =
        rows.countP fun j ↦ !(f.ranking .asc name).le i j := by
    rw [List.filter_map, List.length_map, ← List.countP_eq_length_filter]
    refine List.countP_congr fun j hj ↦ ?_
    simp only [Function.comp_apply, hpresent j hj, Bool.not_false, Bool.true_and]
    rw [h.lt_cell hname (hlt i hi) (hlt j hj)]
  simp only [Function.comp_apply, hpresent i hi, Bool.false_eq_true, if_false, hcount]
  rw [Nat.add_comm]
  rfl

/-- The rank of a row: one more than the number of rows of its partition with smaller cells. -/
def rankOf (f : Frame) (ns : List String) (order : String) (i : Nat) : Nat :=
  ((List.range f.height).countP fun j ↦ f.peers ns i j && !(f.ranking .asc order).le i j) + 1

theorem Filled.windowValues_rank (h : f.Filled names) (hns : ns ⊆ names) (horder : order ∈ names)
    (hkind : orderable (f.columnOf order).toList = true) :
    ∃ column, f.windowValues (windowOf "rank" order output ns order .asc frame) = .ok column ∧
      column.toList = (List.range f.height).map fun i ↦ .int (f.rankOf ns order i) := by
  obtain ⟨rows, parts, hsorted, hparts, hin, hscatter⟩ := h.window_parts
    (windowOf "rank" order output ns order .asc frame) rfl hns horder .asc hkind
  let vals (part : List Nat) : List Datum := part.map fun i ↦
    .int ((part.countP fun j ↦ !(f.ranking .asc order).le i j) + 1 : Nat)
  let ranks : List Int := (List.range f.height).map fun i ↦ f.rankOf ns order i
  have hranks : ∀ part ∈ parts, Column.ranks ((f.columnOf order).pick part) = .ok (vals part) :=
    fun part hpart ↦ h.ranks_pick horder hkind (hin part hpart).1 (hin part hpart).2
  have hvalues : f.overParts parts (f.columnOf order) Column.ranks = .ok (ranks.map .int) := by
    rw [overParts_eq hranks, hscatter vals fun part _ ↦ List.length_map _, List.map_map]
    refine congrArg Except.ok (List.map_congr_left fun i hi ↦ ?_)
    have hmem : i ∈ f.partOf ns .asc order i := h.mem_partOf hns (List.mem_range.mp hi)
    have hcount : ((f.partOf ns .asc order i).countP fun j ↦ !(f.ranking .asc order).le i j) + 1 =
        f.rankOf ns order i := by
      rw [partOf, List.countP_filter, (Ranking.sort_perm _ _).countP_eq, rankOf]
      simp only [Bool.and_comm]
    simp only [cellAt, vals, List.getElem?_map,
      List.getElem?_eq_getElem (List.idxOf_lt_length_of_mem hmem), List.getElem_idxOf,
      Option.map_some, Option.getD_some, hcount]
    rfl
  have hwhole : wholeColumn (ranks.map .int) = .ok (Column.ofList (ranks.map .int)) := by
    simp [wholeColumn, Datum.isMissing]
  refine ⟨Column.ofList (ranks.map .int), ?_, ?_⟩
  · unfold windowValues
    simp only [windowOf] at hparts ⊢
    simp only [hsorted, ok_bind, (h.column_eq horder).1, hparts]
    simp only [Outcome.pure_eq, ok_bind, ite_self]
    exact (congrArg (· >>= wholeColumn) hvalues).trans hwhole
  · rw [toList_ofList_ints, List.map_map]
    rfl

theorem isNaN_of_isFinite {x : Float} (h : x.isFinite = true) : x.isNaN = false := by
  refine Bool.eq_false_iff.mpr fun hnan ↦ ?_
  have h : x.toModel.unpack.isFinite = true := h
  rw [Decimal.isNaN_iff.mp hnan] at h
  cases h

def totalOf (s : Summary) (xs : List Float) (rows : List Nat) : Float :=
  Column.expanding.summary s (rows.map (numberAt xs))

theorem expanding_pick {xs : List Float} {s : Summary} (hs : s ≠ .count) (hc : c.floats? = some xs)
    (hfinite : ∀ i ∈ rows, (numberAt xs i).isFinite = true) (h : ∀ i ∈ rows, i < c.length) :
    Column.expanding s (c.pick rows) = .ok ((List.range rows.length).map fun k ↦
      .float (totalOf s xs (rows.take (k + 1)))) := by
  have hnumbers : (rows.map (numberAt xs)).map (fun x ↦ if x.isFinite then x else Column.nan) =
      rows.map (numberAt xs) := by
    rw [List.map_map]
    exact List.map_congr_left fun i hi ↦ if_pos (hfinite i hi)
  have hproper : ∀ k, ((rows.map (numberAt xs)).take k).filter (!·.isNaN) =
      (rows.take k).map (numberAt xs) := fun k ↦ by
    rw [← List.map_take]
    refine List.filter_eq_self.mpr (List.forall_mem_map.mpr fun i hi ↦ ?_)
    rw [isNaN_of_isFinite (hfinite i (List.mem_of_mem_take hi))]
    rfl
  unfold Column.expanding
  split
  · exact absurd rfl hs
  · rw [floats?_pick hc h]
    simp only [hnumbers, hproper, List.length_map, totalOf]

variable {s : Summary} {xs : List Float}

/-- Running aggregates of a column, which with two or more partition columns do not fit together
with the rows again. -/
theorem Filled.windowValues_running (h : f.Filled names) (hns : ns ⊆ names) (horder : order ∈ names)
    (hinput : input ∈ names) (hkind : orderable (f.columnOf order).toList = true)
    (hfunc : aggregateOf? func = some s) (hs : s ≠ .count)
    (hframe : frame = .null ∨ frame = .text "unbounded preceding to current row")
    (hxs : (f.columnOf input).floats? = some xs)
    (hfinite : ∀ i < f.height, (numberAt xs i).isFinite = true) :
    f.windowValues (windowOf func input output ns order d frame) =
      if 1 < ns.length ∧ f.height ≠ 0 then .error .kind
      else .ok (windowColumn (.floats [])
        ((List.range f.height).map fun i ↦ .float (totalOf s xs (f.rowsTo ns d order i)))) := by
  obtain ⟨rows, parts, hsorted, hparts, hin, hscatter⟩ := h.window_parts
    (windowOf func input output ns order d frame) rfl hns horder d hkind
  let vals (part : List Nat) : List Datum := (List.range part.length).map fun k ↦
    .float (totalOf s xs (part.take (k + 1)))
  have hexpanding : ∀ part ∈ parts,
      Column.expanding s ((f.columnOf input).pick part) = .ok (vals part) := fun part hpart ↦
    expanding_pick hs hxs (fun i hi ↦ hfinite i ((hin part hpart).2 i hi)) fun i hi ↦ by
      rw [h.length_columnOf hinput]
      exact (hin part hpart).2 i hi
  have hvalues : f.overParts parts (f.columnOf input) (Column.expanding s) =
      .ok ((List.range f.height).map fun i ↦ .float (totalOf s xs (f.rowsTo ns d order i))) := by
    rw [overParts_eq hexpanding, hscatter vals fun part _ ↦ by simp [vals]]
    refine congrArg Except.ok (List.map_congr_left fun i hi ↦ ?_)
    have hmem : i ∈ f.partOf ns d order i := h.mem_partOf hns (List.mem_range.mp hi)
    have hlt := List.idxOf_lt_length_of_mem hmem
    simp [cellAt, vals, hlt, rowsTo]
  have hrunning : (windowOf func input output ns order d frame).running = true := by
    rcases hframe with rfl | rfl <;> rfl
  unfold windowValues
  simp only [windowOf] at hparts hrunning ⊢
  simp only [hsorted, ok_bind, (h.column_eq hinput).1, hparts, hfunc]
  simp only [Outcome.pure_eq, ok_bind, ite_self, hrunning, if_true, hvalues,
    List.length_map, Bool.and_eq_true, decide_eq_true_eq, bne_iff_ne]

end Frame

end Gridplan
