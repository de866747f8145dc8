import Gridplan.Cells.Function
import Gridplan.Proofs.Datum.Distinct
import Gridplan.Proofs.Outcome

namespace Gridplan.Cells

open Outcome (Ensures Succeeds ok_bind)

variable {α : Type} {xs : List α} {rs : List (List Datum)}

def table (rs : List (List Datum)) : Datum := .list (rs.map .list)

def rowCells : Datum → List Datum
  | .list r => r
  | d => [d]

def cells (d : Datum) : List (List Datum) := (rows d).map rowCells

@[simp] theorem rows_table : rows (table rs) = rs.map .list := by
  cases rs <;> rfl

@[simp] theorem cells_table : cells (table rs) = rs := by
  rw [cells, rows_table, List.map_map]
  exact List.map_id rs

theorem table_injective : Function.Injective table :=
  Function.LeftInverse.injective (g := cells) fun _ ↦ cells_table

theorem rows_of_isAtom {d : Datum} (h : d.isAtom = true) : rows d = [.list [d]] := by
  cases d with
  | list => cases h
  | _ => rfl

theorem cells_of_isAtom {d : Datum} (h : d.isAtom = true) : cells d = [[d]] := by
  rw [cells, rows_of_isAtom h]
  rfl

theorem single_of_isAtom {d : Datum} (h : d.isAtom = true) : single d = d := by
  cases d with
  | list => cases h
  | _ => rfl

theorem column_table {f : α → Datum} (h : ∀ x ∈ xs, (f x).isAtom = true) :
    column (table (xs.map fun x ↦ [f x])) = xs.map f := by
  rw [column, rows_table, List.map_map, List.map_map]
  refine List.map_congr_left fun x hx ↦ ?_
  exact single_of_isAtom (h x hx)

def orEmpty (rs : List (List Datum)) : List (List Datum) := if rs = [] then [[.text ""]] else rs

theorem orEmpty_ne_nil (rs : List (List Datum)) : orEmpty rs ≠ [] := by
  unfold orEmpty
  split <;> simp_all

theorem keep_table (f : α → List Datum) (p : α → Bool) :
    keep ((xs.map f).map .list) ((xs.map fun x ↦ [.bool (p x)]).map .list) =
      ((xs.filter p).map f).map .list := by
  rw [keep, List.map_map, List.map_map, List.zip_map', List.filter_map, List.map_map, List.map_map]
  rfl

theorem filter_table {d c : Datum} (f : α → List Datum) (p : α → Bool)
    (hd : rows d = (xs.map f).map .list)
    (hc : rows c = (xs.map fun x ↦ [.bool (p x)]).map .list) :
    filter d c .null = table (orEmpty ((xs.filter p).map f)) := by
  rw [filter, hd, hc, keep_table]
  cases xs.filter p <;> rfl

theorem of_orEmpty_filter_perm {f : α → List Datum} {p : α → Bool}
    (h : (orEmpty ((xs.filter p).map f)).Perm (xs.map f)) :
    (∀ x ∈ xs, p x = true) ∨ xs.map f = [[.text ""]] := by
  unfold orEmpty at h
  split at h
  · exact .inr (List.perm_singleton.mp h.symm)
  · have hlen : (xs.filter p).length = xs.length := by simpa using h.length_eq
    exact .inl (List.length_filter_eq_length_iff.mp hlen)

theorem orEmpty_filter_eq {f : α → List Datum} {p : α → Bool} (hxs : xs ≠ [])
    (h : (∀ x ∈ xs, p x = true) ∨ xs.map f = [[.text ""]]) :
    orEmpty ((xs.filter p).map f) = xs.map f := by
  rcases h with hall | hone
  · rw [List.filter_eq_self.mpr hall, orEmpty, if_neg (by simpa using hxs)]
  · obtain ⟨x, rfl, hx⟩ := List.map_eq_singleton_iff.mp hone
    cases hp : p x <;> simp [orEmpty, hp, hx]

theorem cellAt_list (i : Nat) (r : List Datum) :
    cellAt i (.list r) = .ok (r.getD i (.text "")) := by
  rw [cellAt, Datum.size, ok_bind]
  split
  · next h =>
    have hi : i < r.length := by exact_mod_cast h
    simp [Datum.item, Datum.item.at?, Datum.place?, hi]
  · next h =>
    have hi : r.length ≤ i := by omega
    simp [hi]

/-- Whether a cell can be sorted by: it is not too large a number. -/
def IsSortable (d : Datum) : Prop := Succeeds d.asFloat?

theorem succeeds_ofCell {d : Datum} : Succeeds (SortKey.ofCell d) ↔ IsSortable d := by
  refine Outcome.succeeds_bind_total fun o _ ↦ ?_
  cases o <;> exact Outcome.succeeds_ok _

theorem arrange_perm {ascending : Bool} {keyed : List (SortKey × α)} :
    (arrange ascending keyed).Perm (keyed.map (·.2)) :=
  (List.mergeSort_perm _ _).map _

def keyedBy (i : Nat) (r : Datum) : Outcome (SortKey × Datum) := do
  return (← SortKey.ofCell (← cellAt i r), r)

theorem sortOnce_int (i : Nat) (ascending : Bool) (rows : List Datum) :
    sortOnce (.int (i + 1)) ascending rows =
      rows.mapM (keyedBy i) >>= fun keyed ↦ .ok (arrange ascending keyed) := by
  have hi : ((i : Int) + 1) - 1 = i := by omega
  rw [sortOnce, Datum.asInt, ok_bind, hi]
  · rfl
  · intro ds h
    cases h

theorem keyedBy_snd (i : Nat) (r : Datum) : Ensures (keyedBy i r) fun k ↦ k.2 = r :=
  .skip fun _ ↦ .skip fun _ ↦ .ok rfl

theorem sortOnce_perm (i : Nat) (ascending : Bool) (rows : List Datum) :
    Ensures (sortOnce (.int (i + 1)) ascending rows) fun out ↦ out.Perm rows := by
  rw [sortOnce_int]
  refine (Ensures.mapM_forall₂ fun r _ ↦ keyedBy_snd i r).bind fun keyed hkeyed ↦ .ok ?_
  have hrows : keyed.map (·.2) = rows :=
    List.forall₂_eq_eq_eq ▸ List.forall₂_map_left_iff.mpr hkeyed.flip
  exact hrows ▸ arrange_perm

theorem succeeds_keyedBy (i : Nat) (r : List Datum) :
    Succeeds (keyedBy i (.list r)) ↔ IsSortable (r.getD i (.text "")) := by
  rw [keyedBy, cellAt_list, ok_bind]
  exact Outcome.succeeds_bind_ok.trans succeeds_ofCell

theorem succeeds_sortOnce (i : Nat) (ascending : Bool) (rows : List Datum) :
    Succeeds (sortOnce (.int (i + 1)) ascending rows) ↔ ∀ r ∈ rows, Succeeds (keyedBy i r) := by
  rw [sortOnce_int, Outcome.succeeds_bind_ok, Outcome.succeeds_mapM]

def sortKey (k : Nat × Bool) : Datum × Bool := (.int (k.1 + 1), k.2)

theorem sortRows_spec (ks : List (Nat × Bool)) (rows : List Datum) :
    Ensures (sortRows (ks.map sortKey) rows) (·.Perm rows) ∧
      (Succeeds (sortRows (ks.map sortKey) rows) ↔
        ∀ k ∈ ks, ∀ r ∈ rows, Succeeds (keyedBy k.1 r)) := by
  -- the keys are taken from the last to the first
  rw [sortRows, ← List.map_reverse]
  simp only [← @List.mem_reverse _ _ ks]
  generalize ks.reverse = ks
  induction ks generalizing rows with
  | nil => exact ⟨.ok (.refl _), iff_of_true (Outcome.succeeds_ok _) (by simp)⟩
  | cons k ks ih =>
    rw [List.map_cons, List.foldlM_cons]
    constructor
    · exact (sortOnce_perm k.1 k.2 rows).bind fun out hout ↦
        (ih out).1.mono fun out' hout' ↦ hout'.trans hout
    · rw [List.forall_mem_cons, ← succeeds_sortOnce k.1 k.2]
      refine Outcome.succeeds_bind_iff fun out hout ↦ (ih out).2.trans ?_
      simp only [(sortOnce_perm k.1 k.2 rows out hout).mem_iff]

def sortArguments (ks : List (Nat × Bool)) : List Datum :=
  ks.flatMap fun k ↦ [.int (k.1 + 1), .bool k.2]

theorem length_sortArguments (ks : List (Nat × Bool)) :
    (sortArguments ks).length = ks.length * 2 := by
  simp [sortArguments, List.length_flatMap]

theorem keyPairs_sortArguments (ks : List (Nat × Bool)) :
    keyPairs (sortArguments ks) = ks.map sortKey := by
  induction ks with
  | nil => rfl
  | cons k ks ih => exact congrArg _ ih

theorem exists_of_perm {out : List Datum} (h : out.Perm (rs.map .list)) :
    ∃ ss : List (List Datum), out = ss.map .list ∧ ss.Perm rs := by
  refine ⟨out.map rowCells, ?_, ?_⟩
  · rw [List.map_map]
    refine (List.map_id' out).symm.trans (List.map_congr_left fun d hd ↦ ?_)
    obtain ⟨r, -, rfl⟩ := List.mem_map.mp (h.mem_iff.mp hd)
    rfl
  · have hperm := h.map rowCells
    rw [List.map_map] at hperm
    exact hperm.trans (.of_eq (List.map_id rs))

theorem sort_table_eq (ks : List (Nat × Bool)) (hrs : rs ≠ []) :
    sort (table rs) (sortArguments ks) =
      sortRows (ks.map sortKey) (rs.map .list) >>= fun out ↦ .ok (.list out) := by
  rw [sort, rows_table, keyPairs_sortArguments]
  cases rs with
  | nil => exact absurd rfl hrs
  | cons r rs => rfl

theorem sort_table (ks : List (Nat × Bool)) (hrs : rs ≠ []) :
    Ensures (sort (table rs) (sortArguments ks)) (fun d ↦ ∃ ss, d = table ss ∧ ss.Perm rs) ∧
      (Succeeds (sort (table rs) (sortArguments ks)) ↔
        ∀ k ∈ ks, ∀ r ∈ rs, IsSortable (r.getD k.1 (.text ""))) := by
  obtain ⟨hperm, hsucceeds⟩ := sortRows_spec ks (rs.map .list)
  rw [sort_table_eq ks hrs]
  constructor
  · refine hperm.bind fun out hout ↦ .ok ?_
    obtain ⟨ss, rfl, hss⟩ := exists_of_perm hout
    exact ⟨ss, rfl, hss⟩
  · rw [Outcome.succeeds_bind_ok, hsucceeds]
    simp only [List.forall_mem_map, succeeds_keyedBy]

theorem find_zip {β : Type} (key : Datum) (f : α → Datum) (g : α → β) :
    find key ((xs.map f).zip (xs.map g)) =
      find key (xs.map fun x ↦ (f x, x)) >>= fun o ↦ .ok (o.map g) := by
  induction xs with
  | nil => rfl
  | cons x xs ih =>
    rw [List.map_cons, List.map_cons, List.zip_cons_cons, List.map_cons, find, find]
    cases hagree : agree (f x) key with
    | error e => rfl
    | ok b =>
      cases b with
      | true => rfl
      | false => exact ih

section Lookup

variable {β : Type} {ys : List β} {k : α → Datum} {f g : β → Datum}

def partner (ys : List β) (f : β → Datum) (key : Datum) : Outcome (Option β) :=
  find key (ys.map fun y ↦ (f y, y))

theorem mem_of_partner {key : Datum} {y : β} (h : partner ys f key = .ok (some y)) : y ∈ ys := by
  induction ys with
  | nil => cases h
  | cons z ys ih =>
    rw [partner, List.map_cons, find] at h
    obtain ⟨b, -, h⟩ := Outcome.bind_eq_ok.mp h
    cases b with
    | true =>
      obtain rfl : z = y := Option.some.inj (Except.ok.inj h)
      exact List.mem_cons_self
    | false => exact List.mem_cons_of_mem _ (ih h)

theorem lookupRow_table (hys : ys ≠ []) (key : Datum) :
    lookupRow (ys.map f) (ys.map fun y ↦ .list [g y]) (.text "") key =
      partner ys f key >>= fun o ↦ .ok (.list [o.elim (.text "") g]) := by
  rw [lookupRow, find_zip, partner]
  cases find key (ys.map fun y ↦ (f y, y)) with
  | error e => rfl
  | ok o =>
    cases o with
    | some y => rfl
    | none =>
      cases ys with
      | nil => exact absurd rfl hys
      | cons y ys => rfl

theorem rows_table_single : rows (table (ys.map fun y ↦ [g y])) = ys.map fun y ↦ .list [g y] := by
  rw [rows_table, List.map_map]
  rfl

theorem xlookup_one {a b c key : Datum} (h : column a = [key]) :
    xlookup a b c (.text "") = do
      let r ← lookupRow (column b) (rows c) (.text "") key
      if (← r.size) = 1 then r.item 0 else return .list [r] := by
  rw [xlookup, h]
  rfl

theorem xlookup_many {a b c key key' : Datum} {keys : List Datum}
    (h : column a = key :: key' :: keys) :
    xlookup a b c (.text "") = do
      return .list (← (key :: key' :: keys).mapM (lookupRow (column b) (rows c) (.text ""))) := by
  rw [xlookup, h]
  rfl

theorem xlookup_table (hys : ys ≠ []) (hxs : xs ≠ []) (hk : ∀ x ∈ xs, (k x).isAtom = true)
    (hf : ∀ y ∈ ys, (f y).isAtom = true) (hg : ∀ y ∈ ys, (g y).isAtom = true) {F : α → Option β}
    (hF : ∀ x ∈ xs, partner ys f (k x) = .ok (F x)) :
    ∃ v, xlookup (table (xs.map fun x ↦ [k x])) (table (ys.map fun y ↦ [f y]))
        (table (ys.map fun y ↦ [g y])) (.text "") = .ok v ∧
      cells v = xs.map fun x ↦ [(F x).elim (.text "") g] := by
  have hlook : ∀ x ∈ xs, lookupRow (ys.map f) (ys.map fun y ↦ .list [g y]) (.text "") (k x) =
      .ok (.list [(F x).elim (.text "") g]) := by
    intro x hx
    rw [lookupRow_table hys, hF x hx, ok_bind]
  have hcolumn := column_table hk
  rcases xs with _ | ⟨x, _ | ⟨x', xs⟩⟩
  · exact absurd rfl hxs
  · have hatom : ((F x).elim (.text "") g).isAtom = true := by
      have hx := hF x (by simp)
      cases hFx : F x with
      | none => rfl
      | some y => exact hg y (mem_of_partner (hFx ▸ hx))
    refine ⟨(F x).elim (.text "") g, ?_, cells_of_isAtom hatom⟩
    rw [xlookup_one hcolumn, column_table hf, rows_table_single, hlook x (by simp)]
    rfl
  · refine ⟨table ((x :: x' :: xs).map fun x ↦ [(F x).elim (.text "") g]), ?_, cells_table⟩
    rw [xlookup_many hcolumn, column_table hf, rows_table_single, ← List.map_cons, ← List.map_cons,
      List.mapM_map, Function.comp_def, Outcome.mapM_ok hlook, table, List.map_map]
    rfl

theorem succeeds_partner (hys : ys ≠ []) (hk : ∀ x ∈ xs, (k x).isAtom = true)
    (hf : ∀ y ∈ ys, (f y).isAtom = true)
    (h : Succeeds (xlookup (table (xs.map fun x ↦ [k x])) (table (ys.map fun y ↦ [f y]))
      (table (ys.map fun y ↦ [g y])) (.text ""))) :
    ∀ x ∈ xs, Succeeds (partner ys f (k x)) := by
  have hlook : ∀ key, Succeeds (lookupRow (ys.map f) (ys.map fun y ↦ .list [g y]) (.text "") key) →
      Succeeds (partner ys f key) := by
    intro key hkey
    rw [lookupRow_table hys] at hkey
    exact Outcome.succeeds_bind_ok.mp hkey
  have hcolumn := column_table hk
  rcases xs with _ | ⟨x, _ | ⟨x', xs⟩⟩
  · simp
  · rw [xlookup_one hcolumn, column_table hf, rows_table_single] at h
    obtain ⟨r, hr, -⟩ := Outcome.succeeds_bind.mp h
    exact List.forall_mem_singleton.mpr (hlook _ ⟨r, hr⟩)
  · rw [xlookup_many hcolumn, column_table hf, rows_table_single, ← List.map_cons, ← List.map_cons,
      List.mapM_map] at h
    have hall := Outcome.succeeds_mapM.mp (Outcome.succeeds_bind_ok.mp h)
    exact fun x hx ↦ hlook _ (hall x hx)

end Lookup

end Gridplan.Cells
