import Gridplan.Proofs.Frame.Passing
import Gridplan.Proofs.Frame.Windows
import Gridplan.Table.Basic

namespace Gridplan

namespace Outcome

variable {α β γ δ : Type}

/-- Whether two outcomes are both faults, or have results in a relation. -/
inductive Joint (R : α → β → Prop) : Outcome α → Outcome β → Prop
  | ok {a : α} {b : β} (h : R a b) : Joint R (.ok a) (.ok b)
  | error (f g : Fault) : Joint R (.error f) (.error g)

namespace Joint

variable {R : α → β → Prop} {S : γ → δ → Prop} {x : Outcome α} {y : Outcome β}

theorem bind {f : α → Outcome γ} {g : β → Outcome δ} (h : Joint R x y)
    (hfg : ∀ a b, R a b → Joint S (f a) (g b)) : Joint S (x >>= f) (y >>= g) := by
  cases h with
  | ok h => exact hfg _ _ h
  | error e e' => exact .error e e'

theorem mapM {f : γ → Outcome α} {g : γ → Outcome β} (h : ∀ c, Joint R (f c) (g c))
    (cs : List γ) : Joint (List.Forall₂ R) (cs.mapM f) (cs.mapM g) := by
  induction cs with
  | nil => exact .ok .nil
  | cons c cs ih =>
    rw [List.mapM_cons, List.mapM_cons]
    exact (h c).bind fun a b hab ↦ ih.bind fun as bs hs ↦ .ok (.cons hab hs)

end Joint

end Outcome

/-- An order of the rows of a frame: the numbers of all rows, each once. -/
structure Arrangement (n : Nat) where
  order : List Nat
  perm : order.Perm (List.range n)

namespace Arrangement

variable {n : Nat} (p : Arrangement n) {α β : Type} {xs : List α}

/-- The row at a place in the order. There is none beyond the last row, and such places stand for
themselves. -/
def row (k : Nat) : Nat := (p.order[k]?).getD k

def apply (xs : List α) : List α := p.order.filterMap (xs[·]?)

theorem length_order : p.order.length = n := by simpa using p.perm.length_eq

variable {p} in
theorem lt_of_mem {i : Nat} (h : i ∈ p.order) : i < n := List.mem_range.mp (p.perm.mem_iff.mp h)

theorem row_eq_getElem {k : Nat} (hk : k < p.order.length) : p.row k = p.order[k] := by
  rw [row, List.getElem?_eq_getElem hk, Option.getD_some]

theorem row_of_le {k : Nat} (hk : n ≤ k) : p.row k = k := by
  rw [row, List.getElem?_eq_none (by rwa [length_order]), Option.getD_none]

theorem row_lt_iff {k : Nat} : p.row k < n ↔ k < n := by
  rcases Nat.lt_or_ge k n with hk | hk
  · have hk' : k < p.order.length := by rwa [length_order]
    rw [row_eq_getElem p hk']
    exact iff_of_true (lt_of_mem (List.getElem_mem hk')) hk
  · rw [row_of_le p hk]

theorem row_injective : Function.Injective p.row := by
  intro j k hjk
  have hlt : j < n ↔ k < n := by rw [← row_lt_iff p, hjk, row_lt_iff]
  by_cases hj : j < n
  · have hj' : j < p.order.length := by rwa [length_order]
    have hk' : k < p.order.length := by rw [length_order]; exact hlt.mp hj
    rw [row_eq_getElem p hj', row_eq_getElem p hk'] at hjk
    exact (p.perm.nodup_iff.mpr List.nodup_range).getElem_inj_iff.mp hjk
  · rwa [row_of_le p (by omega), row_of_le p (by omega)] at hjk

theorem map_row_range : (List.range n).map p.row = p.order := by
  refine List.ext_getElem (by simp [length_order]) fun k _ hk ↦ ?_
  rw [List.getElem_map, List.getElem_range, row_eq_getElem p hk]

theorem apply_eq_map (h : xs.length = n) (a : α) :
    p.apply xs = p.order.map fun i ↦ (xs[i]?).getD a :=
  Frame.filterMap_getElem? a fun _ hi ↦ h ▸ lt_of_mem hi

theorem perm_apply (h : xs.length = n) : (p.apply xs).Perm xs := by
  have hrange : (List.range n).filterMap (xs[·]?) = xs := by rw [← h, Frame.filterMap_range]
  exact (p.perm.filterMap _).trans (List.Perm.of_eq hrange)

theorem length_apply (h : xs.length = n) : (p.apply xs).length = n :=
  (perm_apply p h).length_eq.trans h

theorem getElem?_apply (h : xs.length = n) (k : Nat) : (p.apply xs)[k]? = xs[p.row k]? := by
  rcases Nat.lt_or_ge k n with hk | hk
  · have hk' : k < p.order.length := by rwa [length_order]
    have hrow : p.row k < xs.length := by rw [h]; exact (row_lt_iff p).mpr hk
    rw [apply_eq_map p h (xs[p.row k]), List.getElem?_map, List.getElem?_eq_getElem hk',
      ← row_eq_getElem p hk', Option.map_some, List.getElem?_eq_getElem hrow, Option.getD_some]
  · rw [List.getElem?_eq_none (by rwa [length_apply p h]), row_of_le p hk,
      List.getElem?_eq_none (by rwa [h])]

theorem apply_map (g : α → β) : p.apply (xs.map g) = (p.apply xs).map g := by
  rw [apply, apply, List.map_filterMap]
  exact List.filterMap_congr fun i _ ↦ List.getElem?_map

theorem apply_range : p.apply (List.range n) = p.order := by
  rw [apply_eq_map p List.length_range 0]
  refine (List.map_congr_left fun i hi ↦ ?_).trans (List.map_id _)
  rw [List.getElem?_range (lt_of_mem hi)]
  rfl

theorem filterMap_apply (h : xs.length = n) (rows : List Nat) :
    rows.filterMap ((p.apply xs)[·]?) = (rows.map p.row).filterMap (xs[·]?) := by
  rw [List.filterMap_map]
  exact List.filterMap_congr fun k _ ↦ getElem?_apply p h k

theorem mapM_eq_none {g : α → Option β} : xs.mapM g = none ↔ ∃ x ∈ xs, g x = none := by
  induction xs with
  | nil => simp
  | cons x xs ih =>
    rw [List.mapM_cons]
    cases hx : g x with
    | none => simp [hx]
    | some y => cases hxs : xs.mapM g <;> simp_all

theorem mapM_filterMap {g : α → Option β} {ys : List β} (h : xs.mapM g = some ys) {rows : List Nat}
    (hrows : ∀ i ∈ rows, i < xs.length) :
    (rows.filterMap (xs[·]?)).mapM g = some (rows.filterMap (ys[·]?)) := by
  induction rows with
  | nil => rfl
  | cons i rows ih =>
    obtain ⟨hi, hrows⟩ := List.forall_mem_cons.mp hrows
    have hx := List.getElem?_eq_getElem hi
    obtain ⟨y, hy, hget⟩ := Frame.exists_of_mapM h hx
    rw [List.filterMap_cons_some hx, List.filterMap_cons_some hget, List.mapM_cons, hy, ih hrows]
    rfl

theorem mapM_apply {g : α → Option β} (h : xs.length = n) :
    (p.apply xs).mapM g = (xs.mapM g).map p.apply := by
  cases hxs : xs.mapM g with
  | none =>
    obtain ⟨x, hx, hnone⟩ := mapM_eq_none.mp hxs
    exact mapM_eq_none.mpr ⟨x, (perm_apply p h).mem_iff.mpr hx, hnone⟩
  | some ys => exact mapM_filterMap hxs fun i hi ↦ h ▸ lt_of_mem hi

end Arrangement

namespace Column

variable {n : Nat} (p : Arrangement n) {c : Column} {xs : List Datum}

theorem pick_pick_order (h : c.length = n) (rows : List Nat) :
    (c.pick p.order).pick rows = c.pick (rows.map p.row) := by
  cases c with
  | ints xs => exact congrArg Column.ints (p.filterMap_apply h rows)
  | floats xs => exact congrArg Column.floats (p.filterMap_apply h rows)
  | bools xs => exact congrArg Column.bools (p.filterMap_apply h rows)
  | mixed xs => exact congrArg Column.mixed (p.filterMap_apply h rows)

theorem toList_pick_order (c : Column) : (c.pick p.order).toList = p.apply c.toList := by
  cases c with
  | mixed xs => rfl
  | ints xs | floats xs | bools xs => exact (p.apply_map _).symm

theorem length_ofList (xs : List Datum) : (ofList xs).length = xs.length := by
  by_cases hnil : xs.isEmpty = true
  · rw [List.isEmpty_iff.mp hnil]
    rfl
  · rw [ofList, if_neg hnil]
    cases hints : xs.mapM int? with
    | some ns => exact (mapM_eq_some_forall₂ hints).length_eq.symm
    | none =>
      cases hbools : xs.mapM bool? with
      | some bs => exact (mapM_eq_some_forall₂ hbools).length_eq.symm
      | none =>
        cases hfloats : xs.mapM float? with
        | some fs =>
          dsimp only
          split
          · rfl
          · exact (mapM_eq_some_forall₂ hfloats).length_eq.symm
        | none => rfl

theorem ofList_apply (h : xs.length = n) : ofList (p.apply xs) = (ofList xs).pick p.order := by
  have hperm := p.perm_apply h
  by_cases hnil : xs.isEmpty = true
  · rw [List.isEmpty_iff.mp hnil] at hperm ⊢
    rw [hperm.eq_nil]
    exact congrArg Column.floats (by simp)
  · have hne : ¬(p.apply xs).isEmpty = true := by
      rwa [List.isEmpty_iff_length_eq_zero, hperm.length_eq, ← List.isEmpty_iff_length_eq_zero]
    have hnull : (p.apply xs).all (· == .null) = xs.all (· == .null) := hperm.all_eq
    rw [ofList, ofList, if_neg hne, if_neg hnil, p.mapM_apply h, p.mapM_apply h, p.mapM_apply h,
      hnull]
    cases xs.mapM int? with
    | some ns => rfl
    | none =>
      cases xs.mapM bool? with
      | some bs => rfl
      | none =>
        cases xs.mapM float? with
        | some fs =>
          dsimp only [Option.map_none, Option.map_some]
          split <;> rfl
        | none => rfl

end Column

namespace Group

def rename (σ : Nat → Nat) (g : Group) : Group := ⟨g.key, g.rows.map σ⟩

variable {σ : Nat → Nat} {keys keys' : List (List Datum)}

theorem insert_rename (key : List Datum) (row : Nat) (gs : List Group) :
    insert key (σ row) (gs.map (rename σ)) = (insert key row gs).map (rename σ) := by
  induction gs with
  | nil => rfl
  | cons g gs ih =>
    have hkey : (rename σ g).key = g.key := rfl
    rw [List.map_cons, insert, insert, ih, hkey]
    by_cases h : Datum.sameList g.key key = true
    · rw [if_pos h, if_pos h]
      simp [rename]
    · rw [if_neg h, if_neg h, List.map_cons]

theorem ofRows_rename (h : ∀ i, (keys[σ i]?).getD [] = (keys'[i]?).getD []) (rows : List Nat) :
    ofRows keys (rows.map σ) = (ofRows keys' rows).map (rename σ) := by
  induction rows using List.reverseRecOn with
  | nil => rfl
  | append_singleton rows row ih =>
    rw [ofRows] at ih
    rw [ofRows, ofRows, List.map_append, List.foldl_append, List.foldl_append, ih]
    simp only [List.map_cons, List.map_nil, List.foldl_cons, List.foldl_nil, h]
    split
    · rfl
    · exact insert_rename _ _ _

end Group

/-- Whether a column with a cell for every row becomes another one in the order of the rows. -/
def Arrangement.Moves {n : Nat} (p : Arrangement n) (c d : Column) : Prop :=
  c.length = n ∧ d = c.pick p.order

namespace Frame

open Outcome (Joint ok_bind)

variable {n : Nat} {f : Frame} {c d : Column}

theorem cellAt_of_moves {p : Arrangement n} (h : p.Moves c d) (k : Nat) :
    cellAt d.toList k = cellAt c.toList (p.row k) := by
  obtain ⟨hlen, rfl⟩ := h
  rw [Column.toList_pick_order, cellAt, p.getElem?_apply (by rwa [length_toList]), cellAt]

theorem keyRows_of_moves {p : Arrangement n} {cs ds : List Column}
    (h : List.Forall₂ p.Moves cs ds) (k : Nat) :
    ((keyRows n cs)[p.row k]?).getD [] = ((keyRows n ds)[k]?).getD [] := by
  rcases Nat.lt_or_ge k n with hk | hk
  · rw [keyRows_getElem? hk, keyRows_getElem? (p.row_lt_iff.mpr hk)]
    induction h with
    | nil => rfl
    | cons h _ ih => rw [List.map_cons, List.map_cons, ih, cellAt_of_moves h]
  · rw [p.row_of_le hk, List.getElem?_eq_none (by simpa [keyRows] using hk),
      List.getElem?_eq_none (by simpa [keyRows] using hk)]

variable (p : Arrangement f.height)

theorem height_pick_order : (f.pick p.order).height = f.height := p.length_apply rfl

theorem joint_column (hfull : ∀ x ∈ f.columns, x.2.length = f.height) (l : Label) :
    Joint p.Moves (f.column l) ((f.pick p.order).column l) := by
  have hcolumns : (f.pick p.order).columns.filter (·.1.same l) =
      (f.columns.filter (·.1.same l)).map fun x ↦ (x.1, x.2.pick p.order) := List.filter_map
  rw [column, column, hcolumns]
  cases hfilter : f.columns.filter (·.1.same l) with
  | nil => exact .error _ _
  | cons x xs =>
    cases xs with
    | nil =>
      have hx : x ∈ f.columns.filter (·.1.same l) := hfilter ▸ List.mem_singleton_self x
      exact .ok ⟨hfull x (List.mem_of_mem_filter hx), rfl⟩
    | cons y xs => exact .error _ _

theorem joint_partitions (hfull : ∀ x ∈ f.columns, x.2.length = f.height) {v w : WindowSpec}
    (hv : v.partitionBy = w.partitionBy) :
    Joint (fun parts parts' ↦ parts = parts'.map (·.map p.row)) (f.partitions w p.order)
      ((f.pick p.order).partitions v (List.range f.height)) := by
  unfold partitions
  rw [hv, height_pick_order]
  split
  · exact .ok (by rw [List.map_singleton, p.map_row_range])
  · refine (Joint.mapM (joint_column p hfull) w.partitionBy).bind fun cs ds h ↦ .ok ?_
    have hgroups := Group.ofRows_rename (keyRows_of_moves h) (List.range f.height)
    rw [p.map_row_range] at hgroups
    rw [hgroups, List.map_map, List.map_map]
    rfl

theorem lookup_map {α : Type} {σ : Nat → Nat} (hσ : Function.Injective σ) (k : Nat)
    (xs : List (Nat × α)) : (xs.map (Prod.map σ id)).lookup (σ k) = xs.lookup k := by
  induction xs with
  | nil => rfl
  | cons x xs ih =>
    obtain ⟨i, a⟩ := x
    have hbeq : (σ k == σ i) = (k == i) := by simp [hσ.eq_iff]
    rw [List.map_cons, Prod.map_apply, List.lookup_cons, List.lookup_cons, ih, hbeq]
    rfl

theorem apply_scatter (p : Arrangement n) (parts : List (List Nat × List Datum)) :
    p.apply (scatter n (parts.map fun x ↦ (x.1.map p.row, x.2))) = scatter n parts := by
  have hplaced : (parts.map fun x ↦ (x.1.map p.row, x.2)).flatMap (fun x ↦ x.1.zip x.2) =
      (parts.flatMap fun x ↦ x.1.zip x.2).map (Prod.map p.row id) := by
    rw [List.flatMap_map, List.map_flatMap]
    exact List.flatMap_congr fun x _ ↦ List.zip_map_left
  rw [scatter, p.apply_map, p.apply_range, ← p.map_row_range, List.map_map]
  refine List.map_congr_left fun k _ ↦ ?_
  exact congrArg (Option.getD · .null)
    ((congrArg (List.lookup (p.row k)) hplaced).trans (lookup_map p.row_injective k _))

theorem length_scatter (parts : List (List Nat × List Datum)) : (scatter n parts).length = n := by
  simp [scatter]

theorem joint_overParts {p : Arrangement f.height} (h : p.Moves c d) (parts : List (List Nat))
    (g : Column → Outcome (List Datum)) :
    Joint (fun xs ys ↦ xs.length = f.height ∧ ys = p.apply xs)
      (f.overParts (parts.map (·.map p.row)) c g) ((f.pick p.order).overParts parts d g) := by
  obtain ⟨hlen, rfl⟩ := h
  unfold overParts
  rw [List.mapM_map, height_pick_order]
  refine (Joint.mapM (R := fun x y ↦ x = (y.1.map p.row, y.2)) (fun rows ↦ ?_) parts).bind
    fun xs ys h ↦ .ok ⟨length_scatter _, ?_⟩
  · -- a part has the same cells in both frames
    rw [Function.comp_apply, Column.pick_pick_order p hlen]
    cases g (c.pick (rows.map p.row)) with
    | ok cells => exact .ok rfl
    | error e => exact .error e e
  · rw [← List.forall₂_map_right_iff, List.forall₂_eq_eq_eq] at h
    rw [h, apply_scatter]

theorem length_windowColumn (c : Column) (xs : List Datum) :
    (windowColumn c xs).length = xs.length := by
  unfold windowColumn
  split
  · rfl
  · split
    · exact List.length_map _
    · exact Column.length_ofList xs

theorem moves_windowColumn (p : Arrangement n) {xs : List Datum} (hxs : xs.length = n)
    (rows : List Nat) :
    p.Moves (windowColumn c xs) (windowColumn (c.pick rows) (p.apply xs)) := by
  refine ⟨(length_windowColumn c xs).trans hxs, ?_⟩
  have hnull : (p.apply xs).all (· == .null) = xs.all (· == .null) := (p.perm_apply hxs).all_eq
  cases c with
  | mixed ys => rfl
  | ints ys | floats ys | bools ys =>
    dsimp only [windowColumn, Column.pick, Column.rearrange]
    rw [hnull]
    split
    · exact congrArg Column.floats (p.apply_map _).symm
    · exact Column.ofList_apply p hxs

theorem joint_wholeColumn (p : Arrangement n) {xs : List Datum} (hxs : xs.length = n) :
    Joint p.Moves (wholeColumn xs) (wholeColumn (p.apply xs)) := by
  have hmissing : (p.apply xs).any Datum.isMissing = xs.any Datum.isMissing :=
    (p.perm_apply hxs).any_eq
  unfold wholeColumn
  rw [hmissing]
  split
  · exact .error _ _
  · exact .ok ⟨(Column.length_ofList xs).trans hxs, Column.ofList_apply p hxs⟩

/-- The window of rows that are in order already. Running aggregates still run. -/
def WindowSpec.onSorted (w : WindowSpec) : WindowSpec :=
  { w with
    orderBy := []
    frame := if w.running then .text "unbounded preceding to current row" else w.frame }

theorem running_onSorted (w : WindowSpec) : w.onSorted.running = w.running := by
  rw [WindowSpec.running, WindowSpec.onSorted]
  cases hrun : w.running with
  | true => rfl
  | false =>
    obtain ⟨hframe, -⟩ := Bool.or_eq_false_iff.mp hrun
    simp [hframe]

theorem offsetOf_onSorted (w : WindowSpec) : offsetOf w.onSorted.frame = offsetOf w.frame := by
  dsimp only [WindowSpec.onSorted]
  split
  · next hrun =>
    rcases Bool.or_eq_true_iff.mp hrun with hframe | hframe
    · rw [beq_iff_eq.mp hframe]
    · rw [beq_iff_eq.mp (Bool.and_eq_true_iff.mp hframe).1]
      rfl
  · rfl

theorem perm_arrange (ds : List Direction) (keys : List (List Datum)) (rows : List Nat) :
    (arrange ds keys rows).Perm rows := by
  have h := (List.mergeSort_perm (rows.map fun i ↦ ((keys[i]?).getD [], i))
    fun a b ↦ keyOrder ds a.1 b.1 != .gt).map Prod.snd
  rwa [List.map_map, show (Prod.snd ∘ fun i ↦ ((keys[i]?).getD [], i)) = id from rfl,
    List.map_id] at h

theorem sortedRows_perm {keys : List (Label × Direction)} {order : List Nat}
    (h : f.sortedRows keys = .ok order) : order.Perm (List.range f.height) := by
  obtain ⟨cs, -, h⟩ := Outcome.bind_eq_ok.mp h
  split at h
  · cases h
    exact perm_arrange _ _ _
  · cases h

theorem arrange_nil (keys : List (List Datum)) (rows : List Nat) : arrange [] keys rows = rows := by
  have hties : ∀ xs : List (List Datum × Nat),
      xs.mergeSort (fun a b ↦ keyOrder [] a.1 b.1 != .gt) = xs := fun xs ↦
    List.mergeSort_of_pairwise (List.pairwise_of_forall fun _ _ ↦ rfl)
  rw [arrange, hties, List.map_map]
  exact List.map_id _

theorem sortedRows_nil (f : Frame) : f.sortedRows [] = .ok (List.range f.height) :=
  congrArg Except.ok (arrange_nil _ _)

theorem joint_values (p : Arrangement f.height)
    (hfull : ∀ x ∈ f.columns, x.2.length = f.height) (w : WindowSpec) (h : p.Moves c d)
    (g : Column → Outcome (List Datum)) {k k' : List Datum → Outcome Column}
    (hk : ∀ xs, xs.length = f.height → Joint p.Moves (k xs) (k' (p.apply xs))) :
    Joint p.Moves (f.partitions w p.order >>= fun parts ↦ f.overParts parts c g >>= k)
      ((f.pick p.order).partitions w.onSorted (List.range f.height) >>= fun parts ↦
        (f.pick p.order).overParts parts d g >>= k') := by
  refine (joint_partitions p hfull (v := w.onSorted) rfl).bind fun parts parts' hparts ↦ ?_
  subst hparts
  refine (joint_overParts h parts' g).bind fun xs ys hxs ↦ ?_
  rw [hxs.2]
  exact hk xs hxs.1

theorem joint_shifted (p : Arrangement f.height)
    (hfull : ∀ x ∈ f.columns, x.2.length = f.height) (w : WindowSpec) (sign : Int)
    {s s' : Option Column} (h : Option.Rel p.Moves s s') :
    Joint p.Moves (windowValues.shifted w f sign p.order s)
      (windowValues.shifted w.onSorted (f.pick p.order) sign (List.range f.height) s') := by
  unfold windowValues.shifted
  rw [offsetOf_onSorted]
  cases offsetOf w.frame with
  | error e => exact .error e e
  | ok n =>
    cases h with
    | none => exact .error _ _
    | some h =>
      refine joint_values p hfull w h _ fun xs hxs ↦ .ok ?_
      rw [h.2]
      exact moves_windowColumn p hxs _

theorem joint_rowNumbers (p : Arrangement f.height)
    (hfull : ∀ x ∈ f.columns, x.2.length = f.height) (w : WindowSpec) {s s' : Option Column}
    {grouped : Bool} (h : Option.Rel p.Moves s s') :
    Joint p.Moves
      (if grouped && s.isNone then .error .member
      else do
        let parts ← f.partitions w p.order
        return windowColumn (.floats []) (scatter f.height (parts.map fun rows ↦
          (rows, (List.range rows.length).map fun (i : Nat) ↦ .int (i + 1)))))
      (if grouped && s'.isNone then .error .member
      else do
        let parts ← (f.pick p.order).partitions w.onSorted (List.range f.height)
        return windowColumn (.floats []) (scatter f.height (parts.map fun rows ↦
          (rows, (List.range rows.length).map fun (i : Nat) ↦ .int (i + 1))))) := by
  let numbers (rows : List Nat) : List Nat × List Datum :=
    (rows, (List.range rows.length).map fun (i : Nat) ↦ .int (i + 1))
  have hnone : s'.isNone = s.isNone := by cases h <;> rfl
  rw [hnone]
  split
  · exact .error _ _
  · refine (joint_partitions p hfull (v := w.onSorted) rfl).bind fun parts parts' hparts ↦ .ok ?_
    subst hparts
    -- the parts have the same sizes, so the same numbers
    have hnumbers : (parts'.map (·.map p.row)).map numbers =
        (parts'.map numbers).map fun x ↦ (x.1.map p.row, x.2) := by
      simp [numbers, Function.comp_def]
    rw [hnumbers, ← apply_scatter p (parts'.map numbers)]
    exact moves_windowColumn p (length_scatter _) []

theorem joint_windowValues (p : Arrangement f.height)
    (hfull : ∀ x ∈ f.columns, x.2.length = f.height) {w : WindowSpec}
    (hsorted : f.sortedRows w.orderBy = .ok p.order) :
    Joint p.Moves (f.windowValues w) ((f.pick p.order).windowValues w.onSorted) := by
  unfold windowValues
  have hnil : w.onSorted.orderBy = [] := rfl
  rw [hsorted, hnil, sortedRows_nil, height_pick_order, running_onSorted, ok_bind,
    ok_bind]
  extract_lets grouped rest grouped' rest'
  have hrest : ∀ s s', Option.Rel p.Moves s s' → Joint p.Moves (rest s) (rest' s') := by
    intro s s' hs
    dsimp only [rest, rest']
    have hfunc : w.onSorted.func = w.func := rfl
    rw [hfunc]
    have hby : w.onSorted.partitionBy = w.partitionBy := rfl
    have hgrouped : grouped' = grouped := rfl
    clear_value rest rest'
    generalize w.func = func
    split
    · next s c hagg =>
      cases hs with
      | some h =>
        rw [hagg]
        dsimp only
        refine (joint_partitions p hfull (v := w.onSorted) rfl).bind fun parts parts' hparts ↦ ?_
        subst hparts
        split
        · refine (joint_overParts h parts' _).bind fun xs ys hxs ↦ ?_
          rw [hby, hxs.2]
          split
          · exact .error _ _
          · exact .ok (moves_windowColumn p hxs.1 [])
        · rw [hgrouped]
          split
          · refine (joint_overParts h parts' _).bind fun xs ys hxs ↦ ?_
            rw [hxs.2, h.2]
            split
            · exact joint_wholeColumn p hxs.1
            · exact .ok (moves_windowColumn p hxs.1 [])
            · exact .ok (moves_windowColumn p hxs.1 _)
          · split <;> split <;> exact .error _ _
    · next hagg =>
      cases hs
      rw [hagg]
      exact .error _ _
    · cases hs with
      | some h =>
        refine joint_values p hfull w h _ fun xs hxs ↦ .ok ?_
        rw [h.2]
        exact moves_windowColumn p hxs _
    · cases hs
      exact .error _ _
    · cases hs with
      | some h => exact joint_values p hfull w h _ fun xs hxs ↦ joint_wholeColumn p hxs
    · cases hs
      exact .error _ _
    · exact joint_rowNumbers p hfull w hs
    · exact joint_shifted p hfull w 1 hs
    · exact joint_shifted p hfull w (-1) hs
    · -- the function is unknown in both
      clear hsorted
      cases hs <;> split <;> simp_all [Joint.error]
  cases hinput : w.input with
  | none =>
    have hinput' : w.onSorted.input = none := hinput
    rw [hinput']
    exact hrest none none .none
  | some l =>
    have hinput' : w.onSorted.input = some l := hinput
    have hcolumn := (joint_column p hfull l).bind fun c d h ↦ hrest (some c) (some d) (.some h)
    have hgrouped : grouped' = grouped := rfl
    rw [hinput', hgrouped]
    dsimp only
    split
    · exact (joint_partitions p hfull rfl).bind fun _ _ _ ↦ hcolumn
    · exact hcolumn

theorem pick_pick_order (p : Arrangement f.height)
    (hfull : ∀ x ∈ f.columns, x.2.length = f.height) (rows : List Nat) :
    (f.pick p.order).pick rows = f.pick (rows.map p.row) := by
  have hcolumns : ((f.pick p.order).columns.map fun x ↦ (x.1, x.2.pick rows)) =
      f.columns.map fun x ↦ (x.1, x.2.pick (rows.map p.row)) := by
    refine List.map_map.trans (List.map_congr_left fun x hx ↦ ?_)
    exact congrArg (Prod.mk x.1) (Column.pick_pick_order p (hfull x hx) rows)
  exact congrArg₂ Frame.mk hcolumns (p.filterMap_apply rfl rows)

theorem pairwise_numbered (n : Nat) : (numbered n).Pairwise (· ≤ ·) := by
  refine List.pairwise_map.mpr (List.pairwise_lt_range.imp fun h ↦ ?_)
  exact Int.ofNat_le.mpr h.le

/-- The numbers of the rows in order, sorted again, are at the places that lead back. -/
theorem map_row_sorted (p : Arrangement n) :
    (((p.apply (numbered n)).zipIdx.mergeSort fun a b ↦ a.1 ≤ b.1).map (·.2)).map p.row =
      List.range n := by
  have hlen : (numbered n).length = n := by simp [numbered]
  let pairs := (p.apply (numbered n)).zipIdx.mergeSort fun a b ↦ a.1 ≤ b.1
  have hperm : pairs.Perm (p.apply (numbered n)).zipIdx := List.mergeSort_perm _ _
  have hrow : ∀ x ∈ pairs, Int.ofNat (p.row x.2) = x.1 := by
    intro x hx
    have hget := List.mem_zipIdx_iff_getElem?.mp (hperm.mem_iff.mp hx)
    rw [p.getElem?_apply hlen, numbered, List.getElem?_map] at hget
    obtain ⟨i, hi, hx⟩ := Option.map_eq_some_iff.mp hget
    obtain ⟨hlt, hi⟩ := List.getElem?_eq_some_iff.mp hi
    rw [List.getElem_range] at hi
    rw [hi, hx]
  have hsorted : (pairs.map (·.1)).Pairwise (· ≤ ·) := by
    have h : pairs.Pairwise fun a b ↦ decide (a.1 ≤ b.1) = true :=
      List.pairwise_mergeSort (by simpa using fun a b c ↦ le_trans)
        (by simpa using fun a b : Int ↦ le_total a b) _
    exact List.pairwise_map.mpr (h.imp of_decide_eq_true)
  have hfst : pairs.map (·.1) = numbered n := by
    refine List.Perm.eq_of_pairwise (fun _ _ _ _ ↦ le_antisymm) hsorted (pairwise_numbered n) ?_
    have h := hperm.map Prod.fst
    rw [List.zipIdx_map_fst] at h
    exact h.trans (p.perm_apply hlen)
  refine List.map_injective_iff.mpr Int.ofNat_injective ?_
  rw [List.map_map, List.map_map]
  exact (List.map_congr_left hrow).trans hfst

theorem sortIndex_pick_order (p : Arrangement n) (hfull : ∀ x ∈ f.columns, x.2.length = n)
    (hindex : f.index = numbered n) : (f.pick p.order).sortIndex = f := by
  obtain rfl : f.height = n := by simp [height, hindex, numbered]
  have hpicked : (f.pick p.order).index = p.apply (numbered f.height) := congrArg p.apply hindex
  rw [sortIndex, hpicked, pick_pick_order p hfull, map_row_sorted, pick_height hfull]

theorem setColumn_pick (l : Label) (c : Column) (rows : List Nat) :
    (f.pick rows).setColumn l (c.pick rows) = (f.setColumn l c).pick rows := by
  have hany : (f.pick rows).columns.any (·.1.same l) = f.columns.any (·.1.same l) := List.any_map
  unfold setColumn
  rw [hany]
  split
  · refine congrArg (Frame.mk · _) (List.map_map.trans (Eq.trans ?_ List.map_map.symm))
    refine List.map_congr_left fun x _ ↦ ?_
    dsimp only [Function.comp_apply]
    split <;> rfl
  · simp [pick]

theorem index_setColumn (l : Label) (c : Column) : (f.setColumn l c).index = f.index := by
  unfold setColumn
  split <;> rfl

theorem height_setColumn (l : Label) (c : Column) : (f.setColumn l c).height = f.height :=
  congrArg List.length (index_setColumn l c)

theorem renumber_setColumn (hindex : f.index = numbered f.height) (l : Label) (c : Column) :
    (f.setColumn l c).renumber = f.setColumn l c := by
  have h : numbered (f.setColumn l c).height = (f.setColumn l c).index := by
    rw [height_setColumn, index_setColumn, ← hindex]
  exact congrArg (Frame.mk _) h

/-- A window of rows that are sorted first. Their index brings them back to their places. -/
def windowSorted (w : WindowSpec) (f : Frame) : Outcome Frame := do
  let order ← f.sortedRows w.orderBy
  let sorted := f.pick order
  let values ← sorted.windowValues w.onSorted
  return (sorted.setColumn w.output values).sortIndex.renumber

theorem joint_window (hfull : ∀ x ∈ f.columns, x.2.length = f.height)
    (hindex : f.index = numbered f.height) (w : WindowSpec) :
    Joint (fun g g' ↦ g = g' ∧ ∃ c, g = f.setColumn w.output c) (f.window w)
      (f.windowSorted w) := by
  cases hsorted : f.sortedRows w.orderBy with
  | error e =>
    unfold window windowValues windowSorted
    rw [hsorted]
    exact .error e e
  | ok order =>
    let p : Arrangement f.height := ⟨order, sortedRows_perm hsorted⟩
    unfold window windowSorted
    rw [hsorted, ok_bind]
    refine (joint_windowValues p hfull hsorted).bind fun c d h ↦ .ok ?_
    obtain ⟨hlen, rfl⟩ := h
    have hcolumns := full_setColumn (l := w.output) hfull hlen
    have hnumbers := (index_setColumn (f := f) w.output c).trans hindex
    have hself : (f.setColumn w.output c).sortIndex = f.setColumn w.output c := by
      refine sortIndex_eq_self (by rwa [height_setColumn]) ?_
      rw [hnumbers]
      exact pairwise_numbered _
    have hback : ((f.pick order).setColumn w.output (c.pick order)).sortIndex =
        f.setColumn w.output c := by
      rw [setColumn_pick]
      exact sortIndex_pick_order p hcolumns hnumbers
    rw [hself, hback, renumber_setColumn hindex]
    exact ⟨rfl, c, rfl⟩

theorem same_iff_of_text {l : Label} {name : String} :
    (Datum.text name).same l = true ↔ .text name = l := by
  cases l <;> simp [Datum.same, Datum.number?]

theorem drop_setColumn {output : String} (hnew : .text output ∉ f.labels) (c : Column)
    (q : Option Plan) :
    Table.drop [.text output] ⟨f.setColumn (.text output) c, q⟩ = .ok ⟨f, q⟩ := by
  have hnone : ¬f.columns.any (·.1.same (.text output)) = true := by
    rw [List.any_eq_true]
    rintro ⟨x, hx, hsame⟩
    exact hnew (Datum.same_text_iff.mp hsame ▸ List.mem_map_of_mem hx)
  have hadded : f.setColumn (.text output) c =
      { f with columns := f.columns ++ [(.text output, c)] } := if_neg hnone
  have hlabel : [Datum.text output].all (·.isIn (f.setColumn (.text output) c).labels) = true := by
    rw [hadded, List.all_cons, List.all_nil, Bool.and_true, isIn_text_iff]
    simp [labels]
  have hkept : (f.setColumn (.text output) c).columns.filter
      (fun x ↦ !x.1.isIn [.text output]) = f.columns := by
    rw [hadded, List.filter_append, List.filter_eq_self.mpr, List.filter_eq_nil_iff.mpr,
      List.append_nil]
    · simp [Datum.isIn]
    · intro x hx
      have hne : Datum.text output ≠ x.1 := fun h ↦ hnew (h ▸ List.mem_map_of_mem hx)
      simpa [Datum.isIn, ← Bool.not_eq_true, same_iff_of_text] using hne
  have hframe : { f.setColumn (.text output) c with columns := f.columns } = f :=
    congrArg (Frame.mk f.columns) (index_setColumn _ c)
  rw [Table.drop, Table.onFrame]
  dsimp only
  rw [if_pos hlabel, hkept, hframe]
  rfl

/-- A window adds a column and leaves the rest of the frame as it is, although its values are those
of the rows sorted by the order of the window. -/
theorem drop_window {output : String} (hfull : ∀ x ∈ f.columns, x.2.length = f.height)
    (hindex : f.index = numbered f.height) (hnew : .text output ∉ f.labels) {w : WindowSpec}
    (hout : w.output = .text output) (g : Frame) :
    (f.window w = .ok g ↔ f.windowSorted w = .ok g) ∧
      (f.window w = .ok g → ∀ q, Table.drop [.text output] ⟨g, q⟩ = .ok ⟨f, q⟩) := by
  have h := joint_window hfull hindex w
  generalize f.window w = x, f.windowSorted w = y at h ⊢
  cases h with
  | error e e' => simp
  | ok h =>
    obtain ⟨rfl, c, rfl⟩ := h
    refine ⟨Iff.rfl, fun hg q ↦ ?_⟩
    obtain rfl := Except.ok.inj hg
    rw [hout]
    exact drop_setColumn hnew c q

def guests : Frame :=
  ⟨[(.text "day", .ints [2, 1, 2]), (.text "guest", .mixed [.text "a", .text "b", .null])],
    numbered 3⟩

def guestBefore : WindowSpec :=
  ⟨"lag", some (.text "guest"), .text "before", [], [(.text "day", .asc)], .null⟩

theorem drop_window_guests :
    ∃ g, guests.window guestBefore = .ok g ∧
      g = guests.setColumn (.text "before") (.mixed [.text "b", .null, .text "a"]) ∧
      guests.windowSorted guestBefore = .ok g ∧
      Table.drop [.text "before"] ⟨g, none⟩ = .ok ⟨guests, none⟩ := by
  have hnew : Datum.text "before" ∉ guests.labels := by simp [guests, labels]
  have hgt : keyOrder [.asc] [.int 2] [.int 1] = .gt := by decide
  have hlt : keyOrder [.asc] [.int 1] [.int 2] = .lt := by decide
  have heq : keyOrder [.asc] [.int 2] [.int 2] = .eq := by decide
  have harrange : arrange [.asc] [[.int 2], [.int 1], [.int 2]] [0, 1, 2] = [1, 0, 2] := by
    simp [arrange, List.mergeSort, List.MergeSort.Internal.splitInTwo, hgt, hlt, heq]
  have hsorted : guests.sortedRows guestBefore.orderBy = .ok [1, 0, 2] :=
    congrArg Except.ok harrange
  have hvalues : guests.windowValues guestBefore =
      .ok (.mixed [.text "b", .null, .text "a"]) := by
    unfold windowValues
    rw [hsorted]
    rfl
  have hwindow : guests.window guestBefore =
      .ok (guests.setColumn (.text "before") (.mixed [.text "b", .null, .text "a"])) := by
    unfold window
    rw [hvalues, Outcome.ok_bind, sortIndex_eq_self (by decide) (by decide)]
    rfl
  obtain ⟨hiff, hdrop⟩ := drop_window (by decide) rfl hnew (w := guestBefore) rfl _
  exact ⟨_, hwindow, rfl, hiff.mp hwindow, hdrop hwindow none⟩

end Frame

end Gridplan
