import Gridplan.Proofs.Cells.Uniques
import Gridplan.Proofs.Formula.Arrays
import Gridplan.Proofs.Layout.Pivots

namespace Gridplan.Layout

open Cells Formula
open Outcome (Ensures Succeeds)

variable {sources : Sources} {counter : Nat} {index : List String} {columns values : String}
  {func : Option String} {i : Plan} {b : Block} {P : Placement}

def valueRow (t : Term) : Term :=
  .call "TRANSPOSE" [.call "SORT" [.call "UNIQUE" [t], .int 1, .text "TRUE"]]

theorem array_valueRow {E : Engine} {contents : Cell → Datum} {t : Term} {d : Datum}
    (ht : E.array contents t = .ok d) :
    E.array contents (valueRow t) =
      Cells.sort (unique d) [.int 1, .bool true] >>= transpose := by
  have hunique : E.array contents (.call "UNIQUE" [t]) = .ok (unique d) := by
    have hargs : [t].mapM (E.array contents) = .ok [d] := by
      rw [List.mapM_cons, ht]
      rfl
    exact Engine.array_call .unique hargs
  have hsort : E.array contents (.call "SORT" [.call "UNIQUE" [t], .int 1, .text "TRUE"]) =
      Cells.sort (unique d) [.int 1, .bool true] := by
    have hargs : [.call "UNIQUE" [t], .int 1, .text "TRUE"].mapM (E.array contents) =
        .ok [unique d, .int 1, .bool true] := by
      rw [List.mapM_cons, hunique]
      rfl
    exact Engine.array_call .sort hargs
  rw [valueRow, Engine.array, Engine.arrayList, hsort]
  cases Cells.sort (unique d) [.int 1, .bool true] <;> rfl

theorem pivot_helper {colCount rowCount : Option Nat} :
    Ensures (pivot counter index columns values func colCount rowCount b) fun P ↦
      ∃ t, b.column columns = .ok t ∧
        .create (sheetName .pivot counter ++ "_distinct") (.int 1) (colCount.getD pivotCols) ∈
          P.edits ∧
        put (sheetName .pivot counter ++ "_distinct") 0 0 (valueRow t) ∈ P.edits := by
  unfold pivot
  dsimp only
  split
  · exact .error _
  · exact .error _
  · refine .skip fun _ ↦ .bind (P := fun t ↦ b.column columns = .ok t) (fun t ht ↦ ht) fun t ht ↦ ?_
    refine .skip fun _ ↦ .skip fun _ ↦ .skip fun _ ↦ .skip fun _ ↦ .ok ⟨t, ht, ?_, ?_⟩
    · simp
    · simp [valueRow]

/-- The formula on the helper sheet of a pivot makes a row of the values of its column, each of them
once and sorted, if no cell of the column reads as not-a-number and no value appears first as an
integer that is too large. A pivot of a source has as many columns on that sheet as the source has
values. -/
theorem pivot_headers (hb : b.part = none)
    (h : placeNode sources counter (.pivot index columns values func) [i] [b] = .ok P) :
    ∃ t n, .create (sheetName .pivot counter ++ "_distinct") (.int 1) n ∈ P.edits ∧
      put (sheetName .pivot counter ++ "_distinct") 0 0 t ∈ P.edits ∧
      ∀ (E : Engine) (contents : Cell → Datum) (xs : List Datum),
        xs = (b.seen contents).map (Relation.cell b.schema · columns) →
        (∀ x ∈ xs, x.isAtom = true ∧ IsDefinite x) →
        (Succeeds (E.array contents t) ↔
          ∀ x ∈ xs, xs.find? (·.same x) = some x → IsSortable x) ∧
        Ensures (E.array contents t) fun d ↦ ∃ row, d = .list [.list row] ∧ ValuesOf xs row ∧
          ∀ id data (rows : List (List Datum)), i.op = .source id (some b.schema) data →
            sources.lookup id = some (.list (rows.map .list)) →
            xs = rows.map (Relation.cell b.schema · columns) → row.length = n := by
  obtain ⟨b', hb', h⟩ := Outcome.bind_eq_ok.mp h
  obtain rfl : b = b' := Except.ok.inj hb'
  obtain ⟨colCount, hcols, h⟩ := Outcome.bind_eq_ok.mp h
  obtain ⟨rowCount, -, h⟩ := Outcome.bind_eq_ok.mp h
  obtain ⟨t, ht, hcreate, hput⟩ := pivot_helper P h
  refine ⟨valueRow t, _, hcreate, hput, fun E contents xs hseen hxs ↦ ?_⟩
  have hrows : Cells.rows (table ((b.seen contents).map fun row ↦
      [Relation.cell b.schema row columns])) = xs.map fun x ↦ .list [x] := by
    rw [rows_table, hseen, List.map_map, List.map_map]
    rfl
  have hne : xs ≠ [] := by simpa [hseen] using Block.seen_ne_nil
  rw [array_valueRow (Block.array_column hb ht)]
  obtain ⟨hiff, hrow⟩ := transpose_sort_unique hrows hne hxs
  refine ⟨hiff, hrow.mono fun d hd ↦ ?_⟩
  obtain ⟨row, rfl, hlists, hlength⟩ := hd
  refine ⟨row, rfl, hlists, fun id data rows hop hdata hcells ↦ ?_⟩
  obtain ⟨m, op, is⟩ := i
  obtain rfl : op = .source id (some b.schema) data := hop
  have hname := Block.mem_schema_of_column ht
  obtain ⟨j, hj⟩ := Option.isSome_iff_exists.mp (List.isSome_idxOf?.mpr hname)
  have hj' : b.schema.idxOf columns = j := by rw [List.idxOf_eq_getD_idxOf?, hj, Option.getD_some]
  have hrows : rows ≠ [] := by
    rintro rfl
    exact hne hcells
  obtain ⟨ys, hys, rfl⟩ := knownValues_cells rfl hj hdata hrows hcols
  have hxys : xs = ys := by
    rw [hcells, ← List.forall₂_eq_eq_eq, List.forall₂_map_left_iff]
    refine hys.imp fun row y hy ↦ ?_
    rw [Relation.cell, hj', List.getD_eq_getElem?_getD, hy, Option.getD_some]
  rw [hlength, hxys, Option.getD_some]

def birds : Relation where
  columns := ["place", "bird", "count"]
  rows := [[.int 1, .text "stork", .int 3], [.int 2, .int 7, .int 1], [.int 1, .text "7", .int 2],
    [.int 3, .float 7, .int 5]]

theorem pivot_headers_birds :
    let sources : Sources := [("birds", table birds.rows)]
    let source : Plan := .node none (.source "birds" (some birds.columns) none) []
    let xs : List Datum := [.text "stork", .int 7, .text "7", .float 7]
    ∃ P t n row, placeNode sources 1 (.pivot ["place"] "bird" "count" none) [source]
        [Block.ofRelation "Source_0" birds] = .ok P ∧
      .create (sheetName .pivot 1 ++ "_distinct") (.int 1) n ∈ P.edits ∧
      put (sheetName .pivot 1 ++ "_distinct") 0 0 t ∈ P.edits ∧
      Engine.apart.array (Block.filling birds) t = .ok (.list [.list row]) ∧ ValuesOf xs row ∧
      row.length = n := by
  intro sources source xs
  have hseen : xs = ((Block.ofRelation "Source_0" birds).seen (Block.filling birds)).map
      (Relation.cell birds.columns · "bird") := by
    rw [(Block.bears_filling (by decide)).seen_eq (List.cons_ne_nil _ _)]
    rfl
  obtain ⟨P, hP⟩ := Outcome.succeeds_of_isOk (x := placeNode sources 1
    (.pivot ["place"] "bird" "count" none) [source] [Block.ofRelation "Source_0" birds]) (by decide)
  obtain ⟨t, n, hcreate, hput, hvalue⟩ := pivot_headers rfl hP
  obtain ⟨hiff, hrow⟩ := hvalue Engine.apart (Block.filling birds) xs hseen (by decide)
  obtain ⟨d, hd⟩ := hiff.mpr fun x hx _ ↦ (show ∀ x ∈ xs, IsSortable x by decide) x hx
  obtain ⟨row, rfl, hvalues, hlength⟩ := hrow d hd
  exact ⟨P, t, n, row, hP, hcreate, hput, hd, hvalues, hlength "birds" none birds.rows rfl rfl rfl⟩

/-- The values of a column cannot be made into a row if one of them is an integer above all
floats. -/
theorem valueRow_huge :
    let R : Relation := ⟨["bird"], [[.int huge]]⟩
    let b := Block.ofRelation "Source_0" R
    ((b.seen (Block.filling R)).map (Relation.cell b.schema · "bird") = [.int huge] ∧
      IsDefinite (.int huge)) ∧
    ∃ t, b.column "bird" = .ok t ∧
      ¬Succeeds (Engine.apart.array (Block.filling R) (valueRow t)) := by
  intro R b
  have hseen : b.seen (Block.filling R) = [[.int huge]] :=
    (Block.bears_filling (by simp [Block.Fits, R, Datum.isAtom])).seen_eq (List.cons_ne_nil _ _)
  refine ⟨⟨by rw [hseen]; rfl, isDefinite_huge⟩, b.columnAt 0, rfl, ?_⟩
  have hcolumn : Engine.apart.array (Block.filling R) (b.columnAt 0) =
      .ok (table [[.int huge]]) := by
    rw [Block.array_columnAt rfl Nat.one_pos, hseen]
    rfl
  have hxs : ∀ x ∈ [Datum.int huge], x.isAtom = true ∧ IsDefinite x :=
    List.forall_mem_singleton.mpr ⟨rfl, isDefinite_huge⟩
  have hfirst : [Datum.int huge].find? (·.same (.int huge)) = some (.int huge) :=
    List.find?_cons_of_pos (Datum.same_refl (.inr rfl))
  rw [array_valueRow hcolumn, (transpose_sort_unique rfl (List.cons_ne_nil _ _) hxs).1]
  intro h
  have hsortable := h _ List.mem_cons_self hfirst
  rw [IsSortable, asFloat?_huge] at hsortable
  exact Outcome.not_succeeds_error _ hsortable

end Gridplan.Layout
