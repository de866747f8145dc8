import Gridplan.Proofs.Formula.Arrays
import Gridplan.Proofs.Layout.Placements
import Gridplan.Proofs.Plan.Nodes

namespace Gridplan.Layout

open Formula
open Outcome (Ensures bind_eq_ok)

variable {E : Engine} {contents : Cell → Datum} {b : Block} {R : Relation} {counter : Nat}
  {names : List String} {keys : List SortKey} {P : Placement} {t : Term}

theorem depth_of_whole (h : b.part = none) :
    b.depth.succ = .whole (b.range.rowEnd - b.range.row + 1) := by
  rw [Block.depth, Block.rowEnd_of_whole h]
  rfl

def isFilled (row : List Datum) : Bool := !(row.getD 0 .null).isBlank

theorem array_notBlank (hE : E.TellsBlank) (hb : b.part = none) (h : firstColumn b = .ok t) :
    E.array contents (notBlank t) =
      .ok (Cells.table ((b.seen contents).map fun row ↦ [.bool (isFilled row)])) := by
  unfold firstColumn at h
  split at h
  · cases h
  · next name rest hschema =>
    have ht : E.array contents t = .ok (Cells.table ((b.seen contents).map fun row ↦
        [Relation.cell b.schema row name])) := Block.array_column hb h
    have hfilled : ∀ row, E.meets "<>" (.text "") (Relation.cell b.schema row name) =
        isFilled row := by
      intro row
      rw [hE, Relation.cell, hschema, List.idxOf_cons_self]
      rfl
    simp only [notBlank, blank, Engine.array, ht, Outcome.ok_bind, Outcome.pure_eq,
      Cells.each_table, List.map_map, Function.comp_def, List.map_cons, List.map_nil, hfilled]

theorem projected_columns {ts : List Term} (h : projected b names = .ok ts) :
    List.Forall₂ (fun n t ↦ b.column n = .ok t) names ts := by
  refine Ensures.mapM_forall₂ (fun n _ ↦ ?_) ts h
  split
  · exact fun t ht ↦ ht
  · exact .error _

theorem array_sideBySide (hb : b.part = none) {ts : List Term} (hne : names ≠ [])
    (h : projected b names = .ok ts) :
    E.array contents (sideBySide ts) = .ok (Cells.table ((b.seen contents).map fun row ↦
      names.map (Relation.cell b.schema row))) := by
  have hcolumns := projected_columns h
  have hbeside : E.array contents (.beside ts) = .ok (Cells.table ((b.seen contents).map fun row ↦
      names.map (Relation.cell b.schema row))) := by
    have hfs : List.Forall₂ (fun f t ↦ ∃ d, E.array contents t = .ok d ∧
        Cells.cells d = (b.seen contents).map f)
        (names.map fun n row ↦ [Relation.cell b.schema row n]) ts :=
      List.forall₂_map_left_iff.mpr (hcolumns.imp fun n t ht ↦
        ⟨_, Block.array_column hb ht, Cells.cells_table⟩)
    rw [Engine.array_beside hfs (by simpa using hne)]
    simp only [List.flatMap_map, ← List.map_eq_flatMap]
  cases hcolumns with
  | nil => exact absurd rfl hne
  | cons ht hrest =>
    cases hrest with
    | nil => exact Block.array_column hb ht
    | cons => exact hbeside

theorem select_value (contents : Cell → Datum) (hE : E.TellsBlank) (hb : b.part = none)
    (h : select counter names none b = .ok P) :
    ∃ t, P.edits = opening P.block.sheet b.depth.succ names ++ [put P.block.sheet 1 0 t] ∧
      (∀ n ∈ names, n ∈ b.schema) ∧
      E.array contents t = .ok (Cells.table (Cells.orEmpty (((b.seen contents).filter isFilled).map
        fun row ↦ names.map (Relation.cell b.schema row)))) := by
  obtain ⟨ts, hts, h⟩ := bind_eq_ok.mp h
  obtain ⟨first, hfirst, h⟩ := bind_eq_ok.mp h
  have h : place (sheetName .select counter) names b.depth.succ
      (opening (sheetName .select counter) b.depth.succ names ++
        [put (sheetName .select counter) 1 0 (.call "FILTER" [sideBySide ts, notBlank first])]) =
      .ok P := h
  rw [depth_of_whole hb] at h ⊢
  obtain ⟨hedits, hoccupies⟩ := place_ensures _ _ _ _ P h
  have hne : names ≠ [] := by
    rintro rfl
    have hwidth := hoccupies.width
    rw [hoccupies.schema] at hwidth
    cases hwidth
  refine ⟨.call "FILTER" [sideBySide ts, notBlank first], hoccupies.sheet ▸ hedits, ?_, ?_⟩
  · intro n hn
    obtain ⟨t, -, ht⟩ := exists_of_forall₂ (projected_columns hts).flip hn
    exact Block.mem_schema_of_column ht
  · rw [Engine.array_filter (array_sideBySide hb hne hts) (array_notBlank hE hb hfirst),
      Cells.filter_table _ _ Cells.rows_table Cells.rows_table]

def sortColumns (schema : List String) (keys : List SortKey) : List (Nat × Bool) :=
  keys.map fun k ↦ (schema.idxOf k.column, decide (k.direction = .asc))

theorem array_sortArgs (E : Engine) (contents : Cell → Datum) {args : List (List Term)}
    (h : keys.mapM (sortArgs b) = .ok args) :
    (∀ k ∈ keys, k.column ∈ b.schema) ∧ args.flatten.mapM (E.array contents) =
      .ok (Cells.sortArguments (sortColumns b.schema keys)) := by
  induction keys generalizing args with
  | nil =>
    obtain rfl := Except.ok.inj h
    exact ⟨by simp, rfl⟩
  | cons k keys ih =>
    obtain ⟨arg, rest, harg, hrest, rfl⟩ := Outcome.mapM_cons_eq_ok.mp h
    obtain ⟨hmem, hvalues⟩ := ih hrest
    obtain ⟨j, hj, harg⟩ := bind_eq_ok.mp harg
    obtain rfl := Except.ok.inj harg
    obtain ⟨hname, rfl⟩ := position_eq_ok hj
    refine ⟨List.forall_mem_cons.mpr ⟨hname, hmem⟩, ?_⟩
    cases hdirection : k.direction <;>
      simp [Engine.array, hvalues, sortColumns, Cells.sortArguments, hdirection]

theorem sort_value (hE : E.TellsBlank) (hb : b.Bears contents R) (hne : R.rows ≠ [])
    (h : sort counter keys none none b = .ok P) :
    ∃ t, P.edits = opening P.block.sheet b.depth.succ b.schema ++ [put P.block.sheet 1 0 t] ∧
      (∀ k ∈ keys, k.column ∈ b.schema) ∧
      E.array contents t =
        if 1 ≤ keys.length ∧ keys.length ≤ 5 then
          Cells.sort (Cells.table (Cells.orEmpty (R.shown.rows.filter isFilled)))
            (Cells.sortArguments (sortColumns b.schema keys))
        else .error .kind := by
  obtain ⟨args, hargs, h⟩ := bind_eq_ok.mp h
  obtain ⟨first, hfirst, h⟩ := bind_eq_ok.mp h
  have h : place (sheetName .sort counter) b.schema b.depth.succ
      (opening (sheetName .sort counter) b.depth.succ b.schema ++
        [put (sheetName .sort counter) 1 0
          (.call "SORT" (.call "FILTER" [b.body, notBlank first] :: args.flatten))]) = .ok P := h
  rw [depth_of_whole hb.whole] at h ⊢
  obtain ⟨hedits, hoccupies⟩ := place_ensures _ _ _ _ P h
  have hschema : b.schema ≠ [] := by
    intro hnil
    rw [firstColumn, hnil] at hfirst
    cases hfirst
  obtain ⟨d, hd, hrows⟩ := Block.array_body (E := E) hb.whole
    (by rw [hb.height]; exact Nat.lt_add_of_pos_right (List.length_pos_iff.mpr hne))
    (by rw [hb.width, hb.schema]) hschema hb.atoms
  have hfilter : E.array contents (.call "FILTER" [b.body, notBlank first]) =
      .ok (Cells.table (Cells.orEmpty (R.shown.rows.filter isFilled))) := by
    rw [Engine.array_filter hd (array_notBlank hE hb.whole hfirst),
      Cells.filter_table id isFilled (by rw [hrows, List.map_id]) Cells.rows_table, List.map_id,
      hb.seen_eq hne]
  obtain ⟨hmem, hvalues⟩ := array_sortArgs E contents hargs
  refine ⟨_, hoccupies.sheet ▸ hedits, hmem, ?_⟩
  have hall : (Term.call "FILTER" [b.body, notBlank first] :: args.flatten).mapM
      (E.array contents) = .ok (Cells.table (Cells.orEmpty (R.shown.rows.filter isFilled)) ::
        Cells.sortArguments (sortColumns b.schema keys)) := by
    rw [List.mapM_cons, hfilter, Outcome.ok_bind, hvalues]
    rfl
  have harity : (Cells.sortArguments (sortColumns b.schema keys)).length = keys.length * 2 := by
    rw [Cells.length_sortArguments, sortColumns, List.length_map]
  refine (Engine.array_call .sort hall).trans (if_congr ?_ rfl rfl)
  rw [List.length_cons, harity]
  exact and_congr (by change 3 ≤ _ ↔ _; omega) (by change _ ≤ 11 ↔ _; omega)

theorem sort_rows_iff (hb : b.Bears contents R) (hne : R.rows ≠ [])
    (hkeys : ∀ k ∈ keys, k.column ∈ R.columns) :
    (∃ rows, Cells.sort (Cells.table (Cells.orEmpty (R.shown.rows.filter isFilled)))
        (Cells.sortArguments (sortColumns R.columns keys)) = .ok (Cells.table rows) ∧
        rows.Perm R.shown.rows) ↔
      ((∀ row ∈ R.shown.rows, isFilled row = true) ∨ R.shown.rows = [[.text ""]]) ∧
      ∀ k ∈ keys, ∀ row ∈ R.shown.rows,
        Cells.IsSortable (Relation.cell R.columns row k.column) := by
  have hshown : R.shown.rows ≠ [] := by simpa [Relation.shown] using hne
  have hfilter : Cells.orEmpty (R.shown.rows.filter isFilled) =
      Cells.orEmpty ((R.shown.rows.filter isFilled).map id) := by rw [List.map_id]
  obtain ⟨hperm, hsucceeds⟩ := Cells.sort_table (sortColumns R.columns keys)
    (Cells.orEmpty_ne_nil (R.shown.rows.filter isFilled))
  have hsortable : (∀ k ∈ sortColumns R.columns keys, ∀ row ∈ R.shown.rows,
      Cells.IsSortable (row.getD k.1 (.text ""))) ↔
      ∀ k ∈ keys, ∀ row ∈ R.shown.rows,
        Cells.IsSortable (Relation.cell R.columns row k.column) := by
    refine List.forall_mem_map.trans (forall₂_congr fun k hk ↦ forall₂_congr fun row hrow ↦ ?_)
    rw [hb.getD_idxOf hrow (hkeys k hk)]
  constructor
  · rintro ⟨rows, hrows, hall⟩
    obtain ⟨ss, hss, hkept⟩ := hperm _ hrows
    obtain rfl := Cells.table_injective hss
    have hkept := hkept.symm.trans hall
    refine ⟨?_, ?_⟩
    · rw [hfilter] at hkept
      simpa using Cells.of_orEmpty_filter_perm (hkept.trans (.of_eq (List.map_id _).symm))
    · rw [← hsortable]
      intro k hk row hrow
      exact hsucceeds.mp ⟨_, hrows⟩ k hk row (hkept.mem_iff.mpr hrow)
  · rintro ⟨hkept, hkeys⟩
    have hkept : Cells.orEmpty (R.shown.rows.filter isFilled) = R.shown.rows := by
      rw [hfilter, Cells.orEmpty_filter_eq hshown (by simpa using hkept), List.map_id]
    rw [hkept] at hperm hsucceeds ⊢
    obtain ⟨d, hd⟩ := hsucceeds.mpr (hsortable.mpr hkeys)
    obtain ⟨rows, rfl, hrows⟩ := hperm d hd
    exact ⟨rows, hd, hrows⟩

/-- On a relation with rows, a projection keeps all of them just when none of them begins with an
empty cell, or the only row and column of the projection is an empty cell. A sort has the rows of
the relation in some order just when none begins with an empty cell, or there is nothing but an
empty cell, there are one to five keys, and all cells of the keys can be compared. -/
theorem select_sort_rows (counter : Nat) (hE : E.TellsBlank) (hb : b.Bears contents R)
    (hne : R.rows ≠ []) :
    (∀ names P, select counter names none b = .ok P → ∃ t S,
      P.edits = opening P.block.sheet b.depth.succ names ++ [put P.block.sheet 1 0 t] ∧
      R.shown.project names = some S ∧
      (E.array contents t = .ok (Cells.table S.rows) ↔
        (∀ row ∈ R.shown.rows, isFilled row = true) ∨ S.rows = [[.text ""]])) ∧
    (∀ keys P, sort counter keys none none b = .ok P → ∃ t,
      P.edits = opening P.block.sheet b.depth.succ R.columns ++ [put P.block.sheet 1 0 t] ∧
      ((∃ rows, E.array contents t = .ok (Cells.table rows) ∧ rows.Perm R.shown.rows) ↔
        ((∀ row ∈ R.shown.rows, isFilled row = true) ∨ R.shown.rows = [[.text ""]]) ∧
        (1 ≤ keys.length ∧ keys.length ≤ 5) ∧
        ∀ k ∈ keys, ∀ row ∈ R.shown.rows,
          Cells.IsSortable (Relation.cell R.columns row k.column))) := by
  have hshown : R.shown.rows ≠ [] := by simpa [Relation.shown] using hne
  refine ⟨fun names P h ↦ ?_, fun keys P h ↦ ?_⟩
  · obtain ⟨t, hedits, hmem, hvalue⟩ := select_value contents hE hb.whole h
    rw [hb.schema] at hmem
    refine ⟨t, _, hedits, Relation.project_eq_some.mpr ⟨hmem, rfl⟩, ?_⟩
    rw [hvalue, hb.seen_eq hne, hb.schema]
    constructor
    · intro heq
      exact Cells.of_orEmpty_filter_perm (.of_eq (Cells.table_injective (Except.ok.inj heq)))
    · intro hkept
      exact congrArg (fun rs ↦ Except.ok (Cells.table rs)) (Cells.orEmpty_filter_eq hshown hkept)
  · obtain ⟨t, hedits, hmem, hvalue⟩ := sort_value hE hb hne h
    rw [hb.schema] at hedits hmem hvalue
    refine ⟨t, hedits, ?_⟩
    rw [hvalue]
    by_cases hcount : 1 ≤ keys.length ∧ keys.length ≤ 5
    · rw [if_pos hcount, sort_rows_iff hb hne hmem, and_iff_right hcount]
    · simp [hcount]

def fruits (d : Datum) : Relation := ⟨["name", "size"], [[d, .int 1], [.text "fig", .null]]⟩

theorem select_sort_rows_fruits :
    let R := fruits (.text "pear")
    let b := Block.ofRelation "s" R
    Engine.apart.TellsBlank ∧ b.Bears (Block.filling R) R ∧
      (∃ P t, select 1 ["size"] none b = .ok P ∧ put P.block.sheet 1 0 t ∈ P.edits ∧
        Engine.apart.array (Block.filling R) t = .ok (Cells.table [[.int 1], [.text ""]])) ∧
      ∃ P t rows, sort 1 [⟨"name", .asc⟩] none none b = .ok P ∧ put P.block.sheet 1 0 t ∈ P.edits ∧
        Engine.apart.array (Block.filling R) t = .ok (Cells.table rows) ∧
        rows.Perm [[.text "pear", .int 1], [.text "fig", .text ""]] := by
  intro R b
  have hb : b.Bears (Block.filling R) R := Block.bears_filling (by decide)
  obtain ⟨hselect, hsort⟩ := select_sort_rows 1 Engine.tellsBlank_apart hb (by decide)
  obtain ⟨P, hP⟩ := Outcome.succeeds_of_isOk (x := select 1 ["size"] none b) (by decide)
  obtain ⟨Q, hQ⟩ := Outcome.succeeds_of_isOk (x := sort 1 [⟨"name", .asc⟩] none none b) (by decide)
  obtain ⟨t, S, hedits, hS, hvalue⟩ := hselect _ P hP
  obtain ⟨u, hedits', hvalue'⟩ := hsort _ Q hQ
  obtain ⟨-, rfl⟩ := Relation.project_eq_some.mp hS
  have hfilled : ∀ row ∈ R.shown.rows, isFilled row = true := by decide
  have hkeys : ∀ k ∈ [(⟨"name", .asc⟩ : SortKey)], ∀ row ∈ R.shown.rows,
      Cells.IsSortable (Relation.cell R.columns row k.column) := by
    intro k hk row hrow
    obtain rfl := List.mem_singleton.mp hk
    rcases List.mem_pair.mp hrow with rfl | rfl <;> exact ⟨_, rfl⟩
  obtain ⟨rows, hrows, hperm⟩ := hvalue'.mpr ⟨.inl hfilled, by decide, hkeys⟩
  refine ⟨Engine.tellsBlank_apart, hb, ⟨P, t, hP, by simp [hedits], hvalue.mpr (.inl hfilled)⟩,
    Q, u, rows, hQ, by simp [hedits'], hrows, hperm⟩

/-- A fruit without a name is lost. -/
theorem select_sort_rows_nameless :
    let R := fruits .null
    let b := Block.ofRelation "s" R
    Engine.apart.TellsBlank ∧ b.Bears (Block.filling R) R ∧
      (∃ P t, select 1 ["name", "size"] none b = .ok P ∧ put P.block.sheet 1 0 t ∈ P.edits ∧
        Engine.apart.array (Block.filling R) t = .ok (Cells.table [[.text "fig", .text ""]])) ∧
      ∃ P t, sort 1 [⟨"name", .asc⟩] none none b = .ok P ∧ put P.block.sheet 1 0 t ∈ P.edits ∧
        ¬∃ rows, Engine.apart.array (Block.filling R) t = .ok (Cells.table rows) ∧
          rows.Perm [[.text "", .int 1], [.text "fig", .text ""]] := by
  intro R b
  have hb : b.Bears (Block.filling R) R := Block.bears_filling (by decide)
  obtain ⟨P, hP⟩ := Outcome.succeeds_of_isOk (x := select 1 ["name", "size"] none b) (by decide)
  obtain ⟨Q, hQ⟩ := Outcome.succeeds_of_isOk (x := sort 1 [⟨"name", .asc⟩] none none b) (by decide)
  have hE := Engine.tellsBlank_apart
  obtain ⟨t, hedits, -, hvalue⟩ := select_value (Block.filling R) hE hb.whole hP
  obtain ⟨u, hedits', hmem, hvalue'⟩ := sort_value hE hb (by decide) hQ
  refine ⟨hE, hb, ⟨P, t, hP, by simp [hedits], ?_⟩, Q, u, hQ, by simp [hedits'], ?_⟩
  · rw [hvalue, hb.seen_eq (by decide)]
    rfl
  · rw [hvalue', if_pos (by decide)]
    intro hrows
    obtain ⟨hkept, -⟩ := (sort_rows_iff hb (by decide) hmem).mp hrows
    rcases hkept with hfilled | hone
    · exact absurd (hfilled _ List.mem_cons_self) (by decide)
    · exact absurd (congrArg List.length hone) (by decide)

end Gridplan.Layout
