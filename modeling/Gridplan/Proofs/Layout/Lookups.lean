import Gridplan.Layout.Join
import Gridplan.Proofs.Formula.Arrays
import Gridplan.Proofs.Layout.Cells
import Gridplan.Proofs.Plan.Nodes

namespace Gridplan

namespace Relation

variable {leftOn rightOn : List String} {R S : Relation} {row : List Datum}

def carried (rightOn : List String) (S : Relation) : List String :=
  S.columns.filter fun n ↦ !rightOn.contains n

/-- The rows of the right side whose keys all equal those of a row of the left side. -/
def partners (leftOn rightOn : List String) (R S : Relation) (row : List Datum) :
    List (List Datum) :=
  S.rows.filter fun r ↦ (leftOn.zip rightOn).all fun k ↦
    (cell R.columns row k.1).same (cell S.columns r k.2)

def joinedRows (leftOn rightOn : List String) (R S : Relation) (row : List Datum) :
    List (List Datum) :=
  match partners leftOn rightOn R S row with
  | [] => [row ++ (S.carried rightOn).map fun _ ↦ .null]
  | rs => rs.map fun r ↦ row ++ (S.carried rightOn).map (cell S.columns r)

/-- All rows of the left side with all their partners on the right side. -/
def leftJoin (leftOn rightOn : List String) (R S : Relation) : Relation :=
  ⟨R.columns ++ S.carried rightOn, R.rows.flatMap (joinedRows leftOn rightOn R S)⟩

theorem joinedRows_ne_nil : joinedRows leftOn rightOn R S row ≠ [] := by
  unfold joinedRows
  split
  · simp
  · next h => simpa using h

end Relation

section Rows

variable {α β : Type} {f : α → Outcome β} {g : α → List β} {xs : List α} {ys : List β}

theorem length_of_mapM (h : xs.mapM f = .ok ys) : ys.length = xs.length :=
  (Outcome.Ensures.mapM_forall₂ (R := fun _ _ ↦ True) (fun _ _ _ _ ↦ trivial) ys h).length_eq.symm

theorem length_le_flatMap (xs : List α) (h : ∀ x, g x ≠ []) :
    xs.length ≤ (xs.flatMap g).length := by
  induction xs with
  | nil => simp
  | cons x xs ih =>
    have hpos := List.length_pos_iff.mpr (h x)
    rw [List.flatMap_cons, List.length_append, List.length_cons]
    omega

theorem mapM_eq_flatMap_iff (h : ∀ x, g x ≠ []) :
    xs.mapM f = .ok (xs.flatMap g) ↔ ∀ x ∈ xs, ∃ y, f x = .ok y ∧ g x = [y] := by
  induction xs with
  | nil => exact iff_of_true rfl (by simp)
  | cons x xs ih =>
    rw [Outcome.mapM_cons_eq_ok, List.forall_mem_cons, ← ih]
    constructor
    · rintro ⟨y, ys, hy, hys, heq⟩
      have hlen := length_of_mapM hys
      obtain ⟨z, zs, hz⟩ := List.exists_cons_of_ne_nil (h x)
      have hle := length_le_flatMap xs h
      rw [List.flatMap_cons, hz, List.cons_append, List.cons.injEq] at heq
      obtain ⟨rfl, rfl⟩ := heq
      obtain rfl : zs = [] := by
        rw [List.length_append] at hlen
        exact List.length_eq_zero_iff.mp (by omega)
      exact ⟨⟨z, hy, hz⟩, hys⟩
    · rintro ⟨⟨y, hy, hg⟩, hys⟩
      exact ⟨y, _, hy, hys, by rw [List.flatMap_cons, hg]; rfl⟩

end Rows

namespace Layout

open Formula
open Outcome (Ensures Succeeds bind_eq_ok)

variable {E : Engine} {contents : Cell → Datum} {s : Sides} {R S : Relation} {counter : Nat}
  {P : Placement} {sheet : String}

theorem array_spread (t : Term) : E.array contents (spread t) = E.array contents t := by
  cases ht : E.array contents t with
  | ok d =>
    have hargs : [t].mapM (E.array contents) = .ok [d] := by
      simp only [List.mapM_cons, List.mapM_nil, ht, Outcome.ok_bind, Outcome.pure_eq]
    exact Engine.array_call .arrayFormula hargs
  | error e =>
    rw [spread, Engine.array, Engine.arrayList_eq, List.mapM_cons, ht]
    rfl

theorem array_lookup {key search result : Term} {a b c : Datum}
    (hkey : E.array contents key = .ok a) (hsearch : E.array contents search = .ok b)
    (hresult : E.array contents result = .ok c) :
    E.array contents (lookup key search result) = Cells.xlookup a b c (.text "") := by
  have hargs : [key, search, result, blank].mapM (E.array contents) = .ok [a, b, c, .text ""] := by
    simp only [List.mapM_cons, List.mapM_nil, hkey, hsearch, hresult, blank, Engine.array,
      Outcome.ok_bind, Outcome.pure_eq]
  rw [lookup, array_spread]
  exact Engine.array_call .xlookup hargs

namespace Sides

/-- The row of the right side that agrees with a row of the left side in the first key, before all
others that do. -/
def partner (contents : Cell → Datum) (s : Sides) (row : List Datum) :
    Outcome (Option (List Datum)) :=
  Cells.partner (s.right.seen contents)
    (fun r ↦ Relation.cell s.right.schema r (s.rightOn.headD ""))
    (Relation.cell s.left.schema row (s.leftOn.headD ""))

def found (contents : Cell → Datum) (s : Sides) (row : List Datum) : Outcome (List Datum) :=
  s.carried.mapM fun n ↦ do
    return (← s.partner contents row).elim (.text "") (Relation.cell s.right.schema · n)

def formulas (s : Sides) (key search : Term) (results : List Term) : List Term :=
  (List.range s.left.schema.length).map (fun j ↦ spread (s.left.columnAt j)) ++
    results.map (lookup key search)

end Sides

def puts (sheet : String) (col : Nat) (ts : List Term) : List Step :=
  (ts.zipIdx col).map fun x ↦ put sheet 1 x.2 x.1

theorem puts_append (col : Nat) (ts us : List Term) :
    puts sheet col (ts ++ us) = puts sheet col ts ++ puts sheet (col + ts.length) us := by
  rw [puts, List.zipIdx_append, List.map_append]
  rfl

theorem eq_puts_of_mapM {f : String → Outcome Term} {g : Term → Term} {m k : Nat}
    {names : List String} {es : List Step}
    (h : (names.zipIdx k).mapM (fun x ↦ f x.1 >>= fun t ↦ .ok (put sheet 1 (m + x.2) (g t))) =
      .ok es) : ∃ ts, names.mapM f = .ok ts ∧ es = puts sheet (m + k) (ts.map g) := by
  induction names generalizing k es with
  | nil =>
    obtain rfl := Except.ok.inj h
    exact ⟨[], rfl, rfl⟩
  | cons n names ih =>
    rw [List.zipIdx_cons, Outcome.mapM_cons_eq_ok] at h
    obtain ⟨e, rest, he, hrest, rfl⟩ := h
    obtain ⟨t, ht, he⟩ := bind_eq_ok.mp he
    obtain rfl := Except.ok.inj he
    obtain ⟨ts, hts, rfl⟩ := ih hrest
    exact ⟨t :: ts, Outcome.mapM_cons_eq_ok.mpr ⟨t, ts, ht, hts, rfl⟩, rfl⟩

theorem puts_range (f : Nat → Term) (names : List String) :
    (names.zipIdx.map fun x ↦ put sheet 1 x.2 (f x.2)) =
      puts sheet 0 ((List.range names.length).map f) := by
  refine List.ext_getElem (by simp [puts]) fun i hi hi' ↦ ?_
  simp [puts]

theorem leftJoin_formulas (h : leftJoin counter s = .ok P) :
    ∃ key search results, s.leftKey = .ok key ∧ s.rightKey = .ok search ∧
      s.carried.mapM s.right.column = .ok results ∧
      P.edits = opening P.block.sheet s.left.depth.succ s.schema ++
        puts P.block.sheet 0 (s.formulas key search results) := by
  obtain ⟨columns, hcolumns, h⟩ := bind_eq_ok.mp h
  obtain ⟨key, hkey, hcolumns⟩ := bind_eq_ok.mp hcolumns
  obtain ⟨search, hsearch, hcolumns⟩ := bind_eq_ok.mp hcolumns
  obtain ⟨found, hfound, hcolumns⟩ := bind_eq_ok.mp hcolumns
  obtain rfl := Except.ok.inj hcolumns
  obtain ⟨hedits, hsheet⟩ := place_keeps _ _ _ _ P h
  obtain ⟨results, hresults, rfl⟩ := eq_puts_of_mapM hfound
  refine ⟨key, search, results, hkey, hsearch, hresults, ?_⟩
  rw [hedits, hsheet, Sides.formulas, puts_append, ← puts_range]
  simp

section Values

variable {key search : Term} {results : List Term}

theorem column_of_leftKey (h : s.leftKey = .ok key) :
    s.left.column (s.leftOn.headD "") = .ok key := by
  unfold Sides.leftKey at h
  split at h
  · cases h
  · next hon => rwa [hon]

theorem column_of_rightKey (h : s.rightKey = .ok search) :
    s.right.column (s.rightOn.headD "") = .ok search := by
  unfold Sides.rightKey at h
  split at h
  · cases h
  · next hon => rwa [hon]

theorem forall₂_results (h : s.carried.mapM s.right.column = .ok results) :
    List.Forall₂ (fun n t ↦ s.right.column n = .ok t) s.carried results :=
  Ensures.mapM_forall₂ (fun _ _ _ ht ↦ ht) results h

theorem isAtom_cell {b : Block} (hatoms : ∀ c, (contents c).isAtom = true) {row : List Datum}
    (hrow : row ∈ b.seen contents) (name : String) :
    (Relation.cell b.schema row name).isAtom = true := by
  rw [Relation.cell, List.getD_eq_getElem?_getD]
  cases hcell : row[b.schema.idxOf name]? with
  | none => rfl
  | some d =>
    obtain ⟨n, -, rfl⟩ := List.mem_map.mp hrow
    obtain ⟨j, -, rfl⟩ := List.mem_map.mp (List.mem_of_getElem? hcell)
    exact hatoms _

theorem flatMap_columns {row : List Datum} {n : Nat} (h : row.length = n) (ds : List Datum) :
    ((List.range n).flatMap fun j ↦ [row.getD j .null]) ++ ds = row ++ ds := by
  subst h
  rw [← List.map_eq_flatMap]
  congr 1
  refine List.ext_getElem (by simp) fun i hi hi' ↦ ?_
  simp [hi']

section Joined

variable (hl : s.left.part = none) (hr : s.right.part = none)
  (hatoms : ∀ c, (contents c).isAtom = true) (hkey : s.leftKey = .ok key)
  (hsearch : s.rightKey = .ok search) (hresults : s.carried.mapM s.right.column = .ok results)

include hl hr hatoms hkey hsearch hresults

theorem array_joined {F : List Datum → Option (List Datum)}
    (hF : s.carried ≠ [] → ∀ row ∈ s.left.seen contents, s.partner contents row = .ok (F row)) :
    E.array contents (.beside (s.formulas key search results)) =
      .ok (Cells.table ((s.left.seen contents).map fun row ↦ row ++ s.carried.map fun n ↦
        (F row).elim (.text "") (Relation.cell s.right.schema · n))) := by
  let copies := (List.range s.left.schema.length).map fun j (row : List Datum) ↦ [row.getD j .null]
  let looked := s.carried.map fun n (row : List Datum) ↦
    [(F row).elim (.text "") (Relation.cell s.right.schema · n)]
  have hcopies : List.Forall₂ (fun f t ↦ ∃ d, E.array contents t = .ok d ∧
      Cells.cells d = (s.left.seen contents).map f) copies
      ((List.range s.left.schema.length).map fun j ↦ spread (s.left.columnAt j)) := by
    refine List.forall₂_map_left_iff.mpr (List.forall₂_map_right_iff.mpr ?_)
    refine List.forall₂_same.mpr fun j hj ↦ ⟨_, ?_, Cells.cells_table⟩
    rw [array_spread, Block.array_columnAt hl (List.mem_range.mp hj)]
  have hlooked : List.Forall₂ (fun f t ↦ ∃ d, E.array contents t = .ok d ∧
      Cells.cells d = (s.left.seen contents).map f) looked (results.map (lookup key search)) := by
    refine List.forall₂_map_left_iff.mpr (List.forall₂_map_right_iff.mpr ?_)
    by_cases hne : s.carried = []
    · rw [hne] at hresults ⊢
      obtain rfl := Except.ok.inj hresults
      exact .nil
    · refine (forall₂_results hresults).imp fun n t ht ↦ ?_
      rw [array_lookup (Block.array_column hl (column_of_leftKey hkey))
        (Block.array_column hr (column_of_rightKey hsearch)) (Block.array_column hr ht)]
      exact Cells.xlookup_table Block.seen_ne_nil Block.seen_ne_nil
        (fun row hrow ↦ isAtom_cell hatoms hrow _) (fun row hrow ↦ isAtom_cell hatoms hrow _)
        (fun row hrow ↦ isAtom_cell hatoms hrow _) (hF hne)
  have hne : s.left.schema ≠ [] :=
    List.ne_nil_of_mem (Block.mem_schema_of_column (column_of_leftKey hkey))
  rw [Sides.formulas, Engine.array_beside (List.rel_append hcopies hlooked)
    (by simp [copies, hne])]
  refine congrArg (fun rs ↦ Except.ok (Cells.table rs)) (List.map_congr_left fun row hrow ↦ ?_)
  rw [List.flatMap_append, List.flatMap_map, List.flatMap_map,
    flatMap_columns (Block.length_of_mem_seen hrow), ← List.map_eq_flatMap]

theorem succeeds_joined (h : Succeeds (E.array contents (.beside (s.formulas key search results))))
    (hne : s.carried ≠ []) : ∀ row ∈ s.left.seen contents, Succeeds (s.partner contents row) := by
  obtain ⟨ds, hds, -⟩ := Outcome.succeeds_bind.mp h
  have hall := Outcome.succeeds_mapM.mp ⟨ds, E.arrayList_eq contents _ ▸ hds⟩
  obtain ⟨n, hn⟩ := List.exists_mem_of_ne_nil _ hne
  obtain ⟨t, ht, hcolumn⟩ := exists_of_forall₂ (forall₂_results hresults).flip hn
  have hlookup := hall _ (List.mem_append_right _ (List.mem_map_of_mem ht))
  rw [array_lookup (Block.array_column hl (column_of_leftKey hkey))
    (Block.array_column hr (column_of_rightKey hsearch)) (Block.array_column hr hcolumn)] at hlookup
  exact Cells.succeeds_partner Block.seen_ne_nil (fun row hrow ↦ isAtom_cell hatoms hrow _)
    (fun row hrow ↦ isAtom_cell hatoms hrow _) hlookup

theorem array_joined_iff {rows : List (List Datum)} :
    E.array contents (.beside (s.formulas key search results)) = .ok (Cells.table rows) ↔
      (s.left.seen contents).mapM (fun row ↦ do return row ++ (← s.found contents row)) =
        .ok rows := by
  by_cases hall : s.carried ≠ [] → ∀ row ∈ s.left.seen contents, Succeeds (s.partner contents row)
  · let F row := (s.partner contents row).toOption.join
    have hF : s.carried ≠ [] → ∀ row ∈ s.left.seen contents,
        s.partner contents row = .ok (F row) := by
      intro hne row hrow
      obtain ⟨o, ho⟩ := hall hne row hrow
      rw [ho]
      simp [F, ho, Except.toOption]
    have hfound : ∀ row ∈ s.left.seen contents, s.found contents row = .ok (s.carried.map fun n ↦
        (F row).elim (.text "") (Relation.cell s.right.schema · n)) := by
      intro row hrow
      refine Outcome.mapM_ok fun n hn ↦ ?_
      rw [hF (List.ne_nil_of_mem hn) row hrow]
      rfl
    rw [array_joined hl hr hatoms hkey hsearch hresults hF, Outcome.mapM_ok fun row hrow ↦ by
      rw [hfound row hrow]; rfl]
    constructor
    · intro heq
      exact congrArg _ (Cells.table_injective (Except.ok.inj heq))
    · intro heq
      rw [Except.ok.inj heq]
  · obtain ⟨hne, hnot⟩ := Classical.not_imp.mp hall
    refine iff_of_false (fun heq ↦ ?_) fun heq ↦ ?_
    · exact hnot (succeeds_joined hl hr hatoms hkey hsearch hresults ⟨_, heq⟩ hne)
    · refine hnot fun row hrow ↦ ?_
      have hfound := Outcome.succeeds_bind_ok.mp (Outcome.succeeds_mapM.mp ⟨_, heq⟩ row hrow)
      obtain ⟨n, hn⟩ := List.exists_mem_of_ne_nil _ hne
      exact Outcome.succeeds_bind_ok.mp (Outcome.succeeds_mapM.mp hfound n hn)

end Joined

end Values

/-- The formulas of a left join have the rows of the left join just when the left side has rows and
every row of it has one row in the left join, with the cells that are looked up for it. -/
theorem leftJoin_rows (hl : s.left.Bears contents R) (hr : s.right.Bears contents S)
    (h : join counter .left s = .ok P) :
    ∃ ts, P.edits = opening P.block.sheet s.left.depth.succ s.schema ++ puts P.block.sheet 0 ts ∧
      (E.array contents (.beside ts) =
          .ok (Cells.table (R.leftJoin s.leftOn s.rightOn S).shown.rows) ↔
        R.rows ≠ [] ∧ ∀ row ∈ R.rows, ∃ ds, s.found contents (row.map Datum.shown) = .ok ds ∧
          (Relation.joinedRows s.leftOn s.rightOn R S row).map (·.map Datum.shown) =
            [row.map Datum.shown ++ ds]) := by
  obtain ⟨key, search, results, hkey, hsearch, hresults, hedits⟩ := leftJoin_formulas h
  refine ⟨_, hedits, (array_joined_iff hl.whole hr.whole hl.atoms hkey hsearch hresults).trans ?_⟩
  have hjoin : (R.leftJoin s.leftOn s.rightOn S).shown.rows = R.rows.flatMap fun row ↦
      (Relation.joinedRows s.leftOn s.rightOn R S row).map (·.map Datum.shown) := List.map_flatMap
  rw [hjoin]
  by_cases hne : R.rows = []
  · -- references to no rows are to the header and the row below
    refine iff_of_false (fun heq ↦ ?_) fun h ↦ h.1 hne
    have hlen := length_of_mapM heq
    rw [hne, List.flatMap_nil, List.length_nil] at hlen
    exact Block.seen_ne_nil (List.length_eq_zero_iff.mp hlen.symm)
  · rw [hl.seen_eq hne, and_iff_right hne, Relation.shown, List.mapM_map, mapM_eq_flatMap_iff
      fun row ↦ by simpa using Relation.joinedRows_ne_nil]
    refine forall₂_congr fun row _ ↦ ?_
    constructor
    · rintro ⟨y, hy, hrows⟩
      obtain ⟨ds, hds, hy⟩ := Outcome.bind_eq_ok.mp hy
      obtain rfl := Except.ok.inj hy
      exact ⟨ds, hds, hrows⟩
    · rintro ⟨ds, hds, hrows⟩
      exact ⟨_, Outcome.bind_eq_ok.mpr ⟨ds, hds, rfl⟩, hrows⟩

def sidesOf (leftOn rightOn : List String) (R S : Relation) : Sides :=
  ⟨.ofRelation "left" R, .ofRelation "right" S, leftOn, rightOn⟩

def sidesFilling (R S : Relation) (c : Cell) : Datum :=
  if c.sheet = some "left" then Block.filling R c else Block.filling S c

theorem bears_sidesOf (leftOn rightOn : List String) (hR : Block.Fits R) (hS : Block.Fits S) :
    (sidesOf leftOn rightOn R S).left.Bears (sidesFilling R S) R ∧
      (sidesOf leftOn rightOn R S).right.Bears (sidesFilling R S) S := by
  have hatoms : ∀ c, (sidesFilling R S c).isAtom = true := by
    intro c
    unfold sidesFilling
    split
    · exact Block.isAtom_filling hR c
    · exact Block.isAtom_filling hS c
  refine ⟨Block.bears_ofRelation hR hatoms fun c hc ↦ if_pos hc,
    Block.bears_ofRelation hS hatoms fun c hc ↦ if_neg ?_⟩
  rw [hc]
  decide

def purchases : Relation :=
  ⟨["item", "shop"], [[.text "tea", .text "a"], [.text "rice", .text "a"]]⟩

def shops (towns : List String) : Relation :=
  ⟨["id", "town"], towns.map fun t ↦ [.text "a", .text t]⟩

theorem leftJoin_rows_purchases :
    let s := sidesOf ["shop"] ["id"] purchases (shops ["Oslo"])
    let contents := sidesFilling purchases (shops ["Oslo"])
    s.left.Bears contents purchases ∧ s.right.Bears contents (shops ["Oslo"]) ∧
      ∃ P ts, join 2 .left s = .ok P ∧
        P.edits = opening P.block.sheet s.left.depth.succ s.schema ++ puts P.block.sheet 0 ts ∧
        Engine.apart.array contents (.beside ts) =
          .ok (Cells.table [[.text "tea", .text "a", .text "Oslo"],
            [.text "rice", .text "a", .text "Oslo"]]) := by
  intro s contents
  obtain ⟨hl, hr⟩ := bears_sidesOf ["shop"] ["id"] (R := purchases) (S := shops ["Oslo"])
    (by decide) (by decide)
  obtain ⟨P, hP⟩ := Outcome.succeeds_of_isOk (x := join 2 .left s) (by decide)
  obtain ⟨ts, hedits, hvalue⟩ := leftJoin_rows (E := .apart) hl hr hP
  refine ⟨hl, hr, P, ts, hP, hedits, hvalue.mpr ⟨by decide, ?_⟩⟩
  refine List.forall_mem_cons.mpr ⟨⟨[.text "Oslo"], rfl, rfl⟩, List.forall_mem_singleton.mpr ?_⟩
  exact ⟨[.text "Oslo"], rfl, rfl⟩

/-- Purchases in a shop with two towns are joined with the first one only. -/
theorem leftJoin_rows_towns :
    let S := shops ["Oslo", "Bergen"]
    let s := sidesOf ["shop"] ["id"] purchases S
    let contents := sidesFilling purchases S
    s.left.Bears contents purchases ∧ s.right.Bears contents S ∧
      (purchases.leftJoin ["shop"] ["id"] S).shown.rows =
        [[.text "tea", .text "a", .text "Oslo"], [.text "tea", .text "a", .text "Bergen"],
          [.text "rice", .text "a", .text "Oslo"], [.text "rice", .text "a", .text "Bergen"]] ∧
      ∃ P ts, join 2 .left s = .ok P ∧
        P.edits = opening P.block.sheet s.left.depth.succ s.schema ++ puts P.block.sheet 0 ts ∧
        Engine.apart.array contents (.beside ts) =
          .ok (Cells.table [[.text "tea", .text "a", .text "Oslo"],
            [.text "rice", .text "a", .text "Oslo"]]) := by
  intro S s contents
  obtain ⟨hl, hr⟩ := bears_sidesOf ["shop"] ["id"] (R := purchases) (S := S) (by decide) (by decide)
  obtain ⟨P, hP⟩ := Outcome.succeeds_of_isOk (x := join 2 .left s) (by decide)
  obtain ⟨key, search, results, hkey, hsearch, hresults, hedits⟩ := leftJoin_formulas hP
  refine ⟨hl, hr, rfl, P, _, hP, hedits, ?_⟩
  rw [array_joined_iff hl.whole hr.whole hl.atoms hkey hsearch hresults]
  rfl

end Layout

end Gridplan
