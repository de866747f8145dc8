import Gridplan.Proofs.Cells.Tables
import Gridplan.Proofs.Formula.Values
import Gridplan.Proofs.Relation.Basic

namespace Gridplan

open Outcome (ok_bind)

variable {name : String} {row : List Datum} {α : Type}

namespace Cells

def each (f : Datum → Datum) : Datum → Datum
  | .list ds => table ((cells (.list ds)).map (·.map f))
  | d => f d

/-- Rows of two arrays put together; they have to be as many. -/
def beside (rs ss : List (List Datum)) : Outcome (List (List Datum)) :=
  if rs.length = ss.length then .ok (rs.zipWith (· ++ ·) ss) else .error .kind

def besides : List (List (List Datum)) → Outcome (List (List Datum))
  | [] => .error .kind
  | rs :: rest => rest.foldlM beside rs

theorem each_table (f : Datum → Datum) (rs : List (List Datum)) :
    each f (table rs) = table (rs.map (·.map f)) := by
  rw [table, each, ← table, cells_table]

theorem beside_map {xs : List α} (f g : α → List Datum) :
    beside (xs.map f) (xs.map g) = .ok (xs.map fun x ↦ f x ++ g x) := by
  rw [beside, if_pos (by simp), List.zipWith_map, List.zipWith_self]

theorem besides_map {xs : List α} {fs : List (α → List Datum)} (hne : fs ≠ []) :
    besides (fs.map fun f ↦ xs.map f) = .ok (xs.map fun x ↦ fs.flatMap (· x)) := by
  have hfold : ∀ (fs : List (α → List Datum)) (f : α → List Datum),
      (fs.map fun f ↦ xs.map f).foldlM beside (xs.map f) =
        .ok (xs.map fun x ↦ f x ++ fs.flatMap (· x)) := by
    intro fs
    induction fs with
    | nil => simp
    | cons g fs ih =>
      intro f
      rw [List.map_cons, List.foldlM_cons, beside_map, ok_bind, ih]
      simp
  cases fs with
  | nil => exact absurd rfl hne
  | cons f fs => exact hfold fs f

end Cells

def Datum.isBlank : Datum → Bool
  | .text s => s == ""
  | _ => false

namespace Formula

open Cells (table cells)

theorem position_eq_ok {schema : List String} {j : Nat} (h : position schema name = .ok j) :
    name ∈ schema ∧ schema.idxOf name = j := by
  unfold position at h
  split at h
  · next i hi =>
    obtain rfl := Except.ok.inj h
    refine ⟨List.isSome_idxOf?.mp (by rw [hi]; rfl), ?_⟩
    rw [List.idxOf_eq_getD_idxOf?, hi, Option.getD_some]
  · cases h

def Ref.rowsTo (r : Ref) (last : Corner) : List (List Cell) :=
  (between r.first.number last.number).map fun n ↦
    (between r.first.col last.col).map fun c ↦ ⟨r.sheet, c, n⟩

namespace Engine

variable (E : Engine) (contents : Cell → Datum)

mutual

def array : Term → Outcome Datum
  | .ref r =>
    match r.last with
    | none => .ok (contents ⟨r.sheet, r.first.col, r.first.number⟩)
    | some last => .ok (table ((r.rowsTo last).map (·.map contents)))
  | .int n => .ok (.int n)
  | .quoted s => .ok (.text s)
  | .text "TRUE" => .ok (.bool true)
  | .text "FALSE" => .ok (.bool false)
  | .binary "<>" l r => do
    let d ← array l
    let v ← array r
    return Cells.each (fun c ↦ .bool (E.meets "<>" v c)) d
  | .call f args => do
    let ds ← arrayList args
    match Cells.Function.ofName? f with
    | some f => if f.arity.1 ≤ ds.length ∧ ds.length ≤ f.arity.2 then f.apply ds else .error .kind
    | none => .error .kind
  | .beside ts => do return table (← Cells.besides ((← arrayList ts).map cells))
  | _ => .error .kind

def arrayList : List Term → Outcome (List Datum)
  | [] => .ok []
  | t :: ts => do
    let d ← array t
    let ds ← arrayList ts
    return d :: ds

end

theorem arrayList_eq (ts : List Term) : E.arrayList contents ts = ts.mapM (E.array contents) := by
  induction ts with
  | nil => rfl
  | cons t ts ih =>
    rw [arrayList, ih, List.mapM_cons]

/-- Whether the engine tells cells with an empty text from all others. -/
def TellsBlank (E : Engine) : Prop := ∀ d : Datum, E.meets "<>" (.text "") d = !d.isBlank

def apart : Engine where
  meets _ v c := !c.same v
  aggregate _ _ := .null

theorem tellsBlank_apart : apart.TellsBlank := by
  intro d
  cases d <;> simp [apart, Datum.same, Datum.number?, Datum.isBlank]

variable {E contents}

theorem array_call (f : Cells.Function) {args : List Term} {ds : List Datum}
    (hargs : args.mapM (E.array contents) = .ok ds) :
    E.array contents (.call f.name args) =
      if f.arity.1 ≤ ds.length ∧ ds.length ≤ f.arity.2 then f.apply ds else .error .kind := by
  have hname : Cells.Function.ofName? f.name = some f := by cases f <;> rfl
  rw [array, arrayList_eq, hargs, ok_bind, hname]

theorem array_filter {t c : Term} {d e : Datum} (ht : E.array contents t = .ok d)
    (hc : E.array contents c = .ok e) :
    E.array contents (.call "FILTER" [t, c]) = .ok (Cells.filter d e .null) := by
  have hargs : [t, c].mapM (E.array contents) = .ok [d, e] := by
    simp only [List.mapM_cons, List.mapM_nil, ht, hc, ok_bind, Outcome.pure_eq]
  exact array_call .filter hargs

theorem array_beside {xs : List α} {fs : List (α → List Datum)} {ts : List Term}
    (h : List.Forall₂ (fun f t ↦ ∃ d, E.array contents t = .ok d ∧ cells d = xs.map f) fs ts)
    (hne : fs ≠ []) :
    E.array contents (.beside ts) = .ok (table (xs.map fun x ↦ fs.flatMap (· x))) := by
  have hlist : ∃ ds, ts.mapM (E.array contents) = .ok ds ∧
      ds.map cells = fs.map fun f ↦ xs.map f := by
    clear hne
    induction h with
    | nil => exact ⟨[], rfl, rfl⟩
    | cons ht _ ih =>
      obtain ⟨d, hd, hcells⟩ := ht
      obtain ⟨ds, hds, hmap⟩ := ih
      refine ⟨d :: ds, ?_, by rw [List.map_cons, hcells, hmap, List.map_cons]⟩
      rw [List.mapM_cons, hd, ok_bind, hds]
      rfl
  obtain ⟨ds, hds, hmap⟩ := hlist
  rw [array, arrayList_eq, hds, ok_bind, hmap, Cells.besides_map hne]
  rfl

end Engine

namespace Block

variable {E : Engine} {contents : Cell → Datum} {b : Block}

/-- The rows of cells that the references to columns of a block are to. A block with no rows has
references to its header and the row below. -/
def seen (contents : Cell → Datum) (b : Block) : List (List Datum) :=
  (between (b.range.row + 2) (b.range.rowEnd + 1)).map fun n ↦
    (List.range b.schema.length).map fun j ↦ contents ⟨some b.sheet, b.range.col + j, n⟩

theorem seen_ne_nil : b.seen contents ≠ [] := by
  simp [seen, between]

theorem length_of_mem_seen (h : row ∈ b.seen contents) : row.length = b.schema.length := by
  obtain ⟨n, -, rfl⟩ := List.mem_map.mp h
  simp

theorem array_columnAt (hb : b.part = none) {j : Nat} (hj : j < b.schema.length) :
    E.array contents (b.columnAt j) =
      .ok (table ((b.seen contents).map fun row ↦ [row.getD j .null])) := by
  rw [columnAt, rowEnd_of_whole hb, Extent.succ_whole, upTo, Engine.array]
  simp [Ref.rowsTo, seen, Function.comp_def, hj]

theorem mem_schema_of_column {t : Term} (h : b.column name = .ok t) : name ∈ b.schema := by
  obtain ⟨j, hj, -⟩ := Outcome.bind_eq_ok.mp h
  exact (position_eq_ok hj).1

theorem array_column (hb : b.part = none) {t : Term} (h : b.column name = .ok t) :
    E.array contents t =
      .ok (table ((b.seen contents).map fun row ↦ [Relation.cell b.schema row name])) := by
  obtain ⟨j, hj, ht⟩ := Outcome.bind_eq_ok.mp h
  obtain rfl := Except.ok.inj ht
  obtain ⟨hname, rfl⟩ := position_eq_ok hj
  exact array_columnAt hb (List.idxOf_lt_length_of_mem hname)

theorem between_columns (hcol : b.range.colEnd + 1 = b.range.col + b.schema.length)
    (hne : b.schema ≠ []) :
    between b.range.col b.range.colEnd = (List.range b.schema.length).map (b.range.col + ·) := by
  have hpos : 0 < b.schema.length := List.length_pos_iff.mpr hne
  have hlen : b.range.colEnd - b.range.col + 1 = b.schema.length := by omega
  rw [between_of_le (by omega), hlen, List.range'_eq_map_range]

theorem array_body (hb : b.part = none) (hrow : b.range.row < b.range.rowEnd)
    (hcol : b.range.colEnd + 1 = b.range.col + b.schema.length) (hne : b.schema ≠ [])
    (hatoms : ∀ c, (contents c).isAtom = true) :
    ∃ d, E.array contents b.body = .ok d ∧ Cells.rows d = (b.seen contents).map .list := by
  rw [body, bottom_of_whole hb, max_eq_right (by omega)]
  split
  · next h =>
    obtain ⟨hend, hwidth⟩ := h
    have hend : b.range.rowEnd = b.range.row + 1 := Extent.whole.inj hend
    have hone : b.schema.length = 1 := by omega
    have hseen : b.seen contents = [[contents ⟨some b.sheet, b.range.col, b.range.row + 2⟩]] := by
      simp [seen, hone, hend]
    refine ⟨_, rfl, ?_⟩
    rw [hseen]
    exact Cells.rows_of_isAtom (hatoms _)
  · refine ⟨table (b.seen contents), ?_, Cells.rows_table⟩
    rw [Extent.succ_whole, upTo, Engine.array]
    simp [Ref.rowsTo, seen, Function.comp_def, between_columns hcol hne]

end Block

end Formula

/-- What a cell reads as: one that holds nothing reads as an empty text. -/
def Datum.shown : Datum → Datum
  | .null => .text ""
  | d => d

def Relation.shown (R : Relation) : Relation := ⟨R.columns, R.rows.map (·.map Datum.shown)⟩

namespace Formula.Block

variable {contents : Cell → Datum} {b : Block} {R : Relation}

/-- Whether a relation stands in a block, below the header, in as many rows and columns as it
has. -/
structure Bears (contents : Cell → Datum) (b : Block) (R : Relation) : Prop where
  whole : b.part = none
  schema : b.schema = R.columns
  height : b.range.rowEnd = b.range.row + R.rows.length
  width : b.range.colEnd + 1 = b.range.col + R.columns.length
  shape : ∀ row ∈ R.rows, row.length = R.columns.length
  atoms : ∀ c, (contents c).isAtom = true
  cells : ∀ i row, R.rows[i]? = some row → ∀ j d, row[j]? = some d →
    contents ⟨some b.sheet, b.range.col + j, b.range.row + 2 + i⟩ = d.shown

theorem Bears.seen_eq (h : Bears contents b R) (hne : R.rows ≠ []) :
    b.seen contents = R.shown.rows := by
  have hpos : 0 < R.rows.length := List.length_pos_iff.mpr hne
  have hlen : b.range.rowEnd + 1 - (b.range.row + 2) + 1 = R.rows.length := by
    rw [h.height]
    omega
  rw [seen, between_of_le (by rw [h.height]; omega), hlen]
  refine List.ext_getElem (by simp [Relation.shown]) fun i hi hi' ↦ ?_
  have hrow : i < R.rows.length := by simpa using hi
  have hwidth := h.shape _ (List.getElem_mem hrow)
  refine List.ext_getElem (by simp [Relation.shown, h.schema, hwidth]) fun j hj hj' ↦ ?_
  have hcell : j < (R.rows[i]).length := by simpa [Relation.shown] using hj'
  have hcells := h.cells i _ (List.getElem?_eq_getElem hrow) j _ (List.getElem?_eq_getElem hcell)
  simpa [Relation.shown] using hcells

theorem Bears.getD_idxOf (h : Bears contents b R) (hrow : row ∈ R.shown.rows)
    (hname : name ∈ R.columns) (d : Datum) :
    row.getD (R.columns.idxOf name) d = Relation.cell R.columns row name := by
  obtain ⟨row, hmem, rfl⟩ := List.mem_map.mp hrow
  have hlt : R.columns.idxOf name < (row.map Datum.shown).length := by
    rw [List.length_map, h.shape row hmem]
    exact List.idxOf_lt_length_of_mem hname
  rw [Relation.cell, List.getD_eq_getElem _ _ hlt, List.getD_eq_getElem _ _ hlt]

/-- The block at the first cell of a sheet in which a relation has room. -/
def ofRelation (sheet : String) (R : Relation) : Block where
  sheet := sheet
  schema := R.columns
  range :=
    { row := 0
      col := 0
      rowEnd := R.rows.length
      colEnd := R.columns.length - 1
      row_le := Nat.zero_le _
      col_le := Nat.zero_le _ }

/-- What a cell of a sheet reads as when a relation stands below a header. -/
def filling (R : Relation) (c : Cell) : Datum :=
  (((R.rows[c.number - 2]?).bind (·[c.col]?)).getD .null).shown

/-- Whether a relation has columns, a cell in each row for each of them, and no cell that is made of
other data. -/
def Fits (R : Relation) : Prop :=
  R.columns ≠ [] ∧ ∀ row ∈ R.rows, row.length = R.columns.length ∧ ∀ d ∈ row, d.isAtom = true

instance : Decidable (Fits R) := inferInstanceAs (Decidable (_ ∧ _))

theorem isAtom_shown {d : Datum} (h : d.isAtom = true) : d.shown.isAtom = true := by
  cases d with
  | null => rfl
  | _ => exact h

theorem isAtom_filling (h : Fits R) (c : Cell) : (filling R c).isAtom = true := by
  refine isAtom_shown ?_
  cases hcell : (R.rows[c.number - 2]?).bind (·[c.col]?) with
  | none => rfl
  | some d =>
    obtain ⟨row, hrow, hd⟩ := Option.bind_eq_some_iff.mp hcell
    exact (h.2 row (List.mem_of_getElem? hrow)).2 d (List.mem_of_getElem? hd)

theorem bears_ofRelation (h : Fits R) {sheet : String} (hatoms : ∀ c, (contents c).isAtom = true)
    (hcontents : ∀ c : Cell, c.sheet = some sheet → contents c = filling R c) :
    Bears contents (ofRelation sheet R) R where
  whole := rfl
  schema := rfl
  height := (Nat.zero_add _).symm
  width := by
    have hpos : 0 < R.columns.length := List.length_pos_iff.mpr h.1
    simp only [ofRelation]
    omega
  shape row hrow := (h.2 row hrow).1
  atoms := hatoms
  cells i row hrow j d hd := by
    rw [hcontents _ rfl, filling]
    simp [ofRelation, hrow, hd]

theorem bears_filling (h : Fits R) {sheet : String} :
    Bears (filling R) (ofRelation sheet R) R :=
  bears_ofRelation h (isAtom_filling h) fun _ _ ↦ rfl

end Formula.Block

end Gridplan
