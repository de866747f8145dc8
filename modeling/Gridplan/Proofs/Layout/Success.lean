import Gridplan.Proofs.Layout.Placements

namespace Gridplan

variable {e : Expr}

def Expr.isLegible : Expr → Bool
  | .verbatim _ | .raw _ => false
  | _ => true

namespace Formula

open Outcome (Succeeds succeeds_bind_iff succeeds_bind_ok succeeds_bind_total)

variable {b : Block} {schema : List String} {n : String}

@[simp] theorem succeeds_position : Succeeds (position schema n) ↔ n ∈ schema := by
  unfold position
  split
  · next i hi => exact iff_of_true (by simp) (List.isSome_idxOf?.mp (by simp [hi]))
  · next hi => exact iff_of_false (by simp) (List.idxOf?_eq_none_iff.mp hi)

namespace Block

@[simp] theorem succeeds_column : Succeeds (b.column n) ↔ n ∈ b.schema := by
  rw [column, ← succeeds_position]
  exact succeeds_bind_ok

mutual

theorem succeeds_expression (b : Block) (e : Expr) :
    Succeeds (b.expression e) ↔ e.columns ⊆ b.schema := by
  cases e with
  | column n =>
    rw [expression, succeeds_column, Expr.columns]
    simp
  | literal v => cases v <;> exact iff_of_true (Outcome.succeeds_ok _) (List.nil_subset _)
  | binary op l r =>
    rw [expression, Expr.columns, List.append_subset, ← succeeds_expression b l,
      ← succeeds_expression b r]
    refine succeeds_bind_iff fun t _ ↦ succeeds_bind_total fun u _ ↦ ?_
    split <;> simp
  | unary op e =>
    rw [expression, Expr.columns, ← succeeds_expression b e]
    refine succeeds_bind_total fun t _ ↦ ?_
    split
    · simp
    · split <;> simp
  | call f args =>
    rw [expression, Expr.columns, ← succeeds_expressionList b args]
    exact succeeds_bind_ok
  | verbatim t => exact iff_of_true (Outcome.succeeds_ok _) (List.nil_subset _)
  | raw d => exact iff_of_true (Outcome.succeeds_ok _) (List.nil_subset _)

theorem succeeds_expressionList (b : Block) (es : List Expr) :
    Succeeds (b.expressionList es) ↔ Expr.columnsList es ⊆ b.schema := by
  cases es with
  | nil => exact iff_of_true (Outcome.succeeds_ok _) (List.nil_subset _)
  | cons e es =>
    rw [expressionList, Expr.columnsList, List.append_subset, ← succeeds_expression b e,
      ← succeeds_expressionList b es]
    exact succeeds_bind_iff fun t _ ↦ succeeds_bind_ok

end

theorem succeeds_condition :
    Succeeds (b.condition e) ↔ e.isLegible = true ∧ e.columns ⊆ b.schema := by
  cases e with
  | verbatim t => exact iff_of_false (by simp [condition]) (by simp [Expr.isLegible])
  | raw d => exact iff_of_false (by simp [condition]) (by simp [Expr.isLegible])
  | _ => exact (succeeds_expression b _).trans (and_iff_right rfl).symm

end Block

end Formula

namespace Layout

open Formula
open Extent (succ_whole)
open Outcome (Succeeds succeeds_bind_iff succeeds_bind_ok succeeds_bind_total succeeds_mapM
  succeeds_filterMapM)

variable {counter : Nat} {sheet : String} {b l r : Block}
variable {keys : List String} {c : Option Expr} {aggs : List Aggregation}

theorem succeeds_place {schema : List String} {last : Nat} {edits : List Step} :
    Succeeds (place sheet schema (.whole last) edits) ↔ schema ≠ [] := by
  have hrange : Succeeds (Range.fromOrigin last ((schema.length : Int) - 1)) ↔ schema ≠ [] := by
    unfold Range.fromOrigin Range.ofCorners
    split
    · omega
    · split
      · next h =>
        refine iff_of_false (by simp) fun hne ↦ ?_
        have := List.length_pos_iff.mpr hne
        omega
      · next h =>
        refine iff_of_true (by simp) ?_
        rintro rfl
        simp at h
  rw [← hrange, place]
  exact succeeds_bind_ok

theorem succeeds_firstColumn : Succeeds (firstColumn b) ↔ b.schema ≠ [] := by
  unfold firstColumn
  split
  · next h => simp [h]
  · next h => simp [h]

theorem succeeds_extra :
    Succeeds (extra b c) ↔
      ∀ e ∈ c, e.truthy = true → e.isLegible = true ∧ e.columns ⊆ b.schema := by
  unfold extra
  split
  · next e =>
    simp only [Option.mem_def, Option.some.injEq, forall_eq']
    split
    · next h => exact succeeds_bind_ok.trans (Block.succeeds_condition.trans (by simp [h]))
    · next h => simp [h]
  · simp

theorem succeeds_source {schema : Option (List String)} {data : Datum} :
    Succeeds (source counter schema data) ↔ schema.getD [] ≠ [] := by
  unfold source
  split
  · simp
  · simp
  · exact succeeds_place

theorem succeeds_select (hb : Rooted b) {columns : List String} :
    Succeeds (select counter columns c b) ↔ columns ≠ [] ∧ columns ⊆ b.schema ∧
      ∀ e ∈ c, e.truthy = true → e.isLegible = true ∧ e.columns ⊆ b.schema := by
  have hprojected : Succeeds (projected b columns) ↔ columns ⊆ b.schema := by
    refine succeeds_mapM.trans (forall₂_congr fun n _ ↦ ?_)
    split
    · exact Block.succeeds_column
    · next h => exact iff_of_false (by simp) (by simpa using h)
  rw [select, hb.depth_eq, succ_whole]
  refine (succeeds_bind_iff fun refs _ ↦ succeeds_bind_iff fun t _ ↦ succeeds_bind_iff fun cs _ ↦
    succeeds_place).trans ?_
  rw [hprojected, succeeds_firstColumn, succeeds_extra]
  constructor
  · rintro ⟨hsub, -, hc, hne⟩
    exact ⟨hne, hsub, hc⟩
  · rintro ⟨hne, hsub, hc⟩
    exact ⟨hsub, fun h ↦ hne (List.subset_nil.mp (h ▸ hsub)), hc, hne⟩

theorem succeeds_filter (hb : Rooted b) :
    Succeeds (filter counter e b) ↔ b.schema ≠ [] ∧ e.isLegible = true ∧ e.columns ⊆ b.schema := by
  rw [filter, hb.depth_eq, succ_whole]
  refine (succeeds_bind_iff fun t _ ↦ succeeds_place).trans ?_
  rw [Block.succeeds_condition, and_comm]

theorem succeeds_sort (hb : Rooted b) {keys : List SortKey} {cap : Option Nat} :
    Succeeds (sort counter keys (cap.map Amount.ofNat) c b) ↔ b.schema ≠ [] ∧
      (∀ k ∈ keys, k.column ∈ b.schema) ∧
      ∀ e ∈ c, e.truthy = true → e.isLegible = true ∧ e.columns ⊆ b.schema := by
  have hargs : Succeeds (keys.mapM (sortArgs b)) ↔ ∀ k ∈ keys, k.column ∈ b.schema :=
    succeeds_mapM.trans (forall₂_congr fun k _ ↦ succeeds_bind_ok.trans succeeds_position)
  have hsorted : Succeeds (sorted keys c b) ↔ (∀ k ∈ keys, k.column ∈ b.schema) ∧ b.schema ≠ [] ∧
      ∀ e ∈ c, e.truthy = true → e.isLegible = true ∧ e.columns ⊆ b.schema := by
    rw [← hargs, ← succeeds_firstColumn, ← succeeds_extra]
    exact succeeds_bind_iff fun args _ ↦ succeeds_bind_iff fun t _ ↦ succeeds_bind_ok
  rw [sort_eq_place hb.depth_eq]
  refine (succeeds_bind_iff fun t _ ↦ succeeds_place).trans ?_
  rw [hsorted]
  tauto

theorem succeeds_limit (hb : Rooted b) {count : Nat} {side : Side} :
    Succeeds (limit counter (.ofNat count) side b) ↔ b.schema ≠ [] := by
  rw [limit_eq_place hb.depth_eq]
  exact succeeds_place

theorem withName_ne_nil (schema : List String) (name : String) : withName schema name ≠ [] := by
  unfold withName
  split
  · next h =>
    rintro rfl
    simp at h
  · simp

theorem mem_withName {schema : List String} {name n : String} :
    n ∈ withName schema name ↔ n ∈ schema ∨ n = name := by
  unfold withName
  split
  · next h =>
    simp only [List.contains_eq_mem, decide_eq_true_eq] at h
    exact ⟨.inl, fun hn ↦ hn.elim id fun hn ↦ hn ▸ h⟩
  · simp

theorem succeeds_computed : Succeeds (computed b e) ↔ e.columns ⊆ b.schema := by
  cases e with
  | verbatim t => exact iff_of_true (Outcome.succeeds_ok _) (List.nil_subset _)
  | raw d => exact iff_of_true (Outcome.succeeds_ok _) (List.nil_subset _)
  | _ => exact Block.succeeds_expression b _

theorem succeeds_withColumn (hb : Rooted b) {column : String} :
    Succeeds (withColumn counter column e b) ↔ e.columns ⊆ b.schema := by
  rw [withColumn, hb.depth_eq, succ_whole]
  refine (succeeds_bind_iff fun copies _ ↦ succeeds_bind_iff fun t _ ↦ succeeds_bind_iff
    fun j _ ↦ succeeds_place).trans ?_
  rw [succeeds_computed]
  have hcopies : ∀ x ∈ (withName b.schema column).zipIdx, Succeeds (if x.1 = column
      then (.ok none : Outcome (Option Step)) else do
        return some (put (sheetName .withColumn counter) 1 x.2 (spread (← b.column x.1)))) := by
    intro x hx
    split
    · simp
    · next h =>
      have hmem := (mem_withName.mp (List.fst_mem_of_mem_zipIdx hx)).resolve_right h
      exact succeeds_bind_ok.mpr (Block.succeeds_column.mpr hmem)
  constructor
  · exact fun h ↦ h.2.1
  · intro h
    refine ⟨succeeds_filterMapM.mpr hcopies, h, ?_, withName_ne_nil _ _⟩
    rw [succeeds_position, mem_withName]
    exact .inr rfl

theorem succeeds_union (hl : Rooted l) (hr : Rooted r) :
    Succeeds (union counter l r) ↔ l.schema ≠ [] ∧ l.schema = r.schema := by
  unfold union
  split
  · next h =>
    simp only [hl.depth_eq, hr.depth_eq, Extent.add_whole, succ_whole]
    exact succeeds_place.trans (and_iff_left h).symm
  · next h => exact iff_of_false (by simp) fun h' ↦ h h'.2

section Join

variable {s : Sides}

theorem succeeds_leftKey :
    Succeeds s.leftKey ↔ ∃ k ∈ s.leftOn.head?, k ∈ s.left.schema := by
  unfold Sides.leftKey
  split <;> simp_all

theorem succeeds_rightKey :
    Succeeds s.rightKey ↔ ∃ k ∈ s.rightOn.head?, k ∈ s.right.schema := by
  unfold Sides.rightKey
  split <;> simp_all

theorem carried_subset : s.carried ⊆ s.right.schema := List.filter_subset_self _

theorem schema_ne_nil (h : Succeeds s.leftKey) : s.schema ≠ [] := by
  obtain ⟨k, -, hk⟩ := succeeds_leftKey.mp h
  exact List.append_ne_nil_of_left_ne_nil (List.ne_nil_of_mem hk) _

theorem succeeds_leftColumns :
    Succeeds (leftColumns sheet s) ↔ Succeeds s.leftKey ∧ Succeeds s.rightKey := by
  refine succeeds_bind_iff fun key _ ↦ succeeds_bind_total fun search _ ↦ ?_
  refine succeeds_bind_ok.mpr (succeeds_mapM.mpr fun x hx ↦ succeeds_bind_ok.mpr ?_)
  exact Block.succeeds_column.mpr (carried_subset (List.fst_mem_of_mem_zipIdx hx))

theorem succeeds_leftJoin (hs : Rooted s.left) :
    Succeeds (leftJoin counter s) ↔ Succeeds s.leftKey ∧ Succeeds s.rightKey := by
  rw [leftJoin, hs.depth_eq, succ_whole]
  refine (succeeds_bind_iff fun cols _ ↦ succeeds_place).trans ?_
  rw [succeeds_leftColumns]
  exact and_iff_left_of_imp fun h ↦ schema_ne_nil h.1

theorem succeeds_innerJoin (hs : Rooted s.left) :
    Succeeds (innerJoin counter s) ↔ Succeeds s.leftKey ∧ Succeeds s.rightKey := by
  rw [innerJoin, ← succeeds_leftJoin hs, hs.depth_eq, succ_whole]
  refine succeeds_bind_total fun J hJ ↦ ?_
  have hschema : J.block.schema = s.schema := by
    rw [leftJoin, hs.depth_eq, succ_whole] at hJ
    obtain ⟨cols, -, hplace⟩ := Outcome.bind_eq_ok.mp hJ
    exact (place_ensures _ _ _ _ J hplace).2.schema
  have hkey := ((succeeds_leftJoin hs).mp ⟨J, hJ⟩).1
  refine (succeeds_bind_iff fun checks _ ↦ succeeds_place).mpr ⟨?_, schema_ne_nil hkey⟩
  refine succeeds_mapM.mpr fun n hn ↦ succeeds_bind_ok.mpr (Block.succeeds_column.mpr ?_)
  rw [hschema]
  exact List.mem_append_right _ hn

theorem succeeds_rightJoin (hs : Rooted s.right) :
    Succeeds (rightJoin counter s) ↔ Succeeds s.leftKey ∧ Succeeds s.rightKey := by
  rw [rightJoin, hs.depth_eq, succ_whole]
  refine (succeeds_bind_iff fun key _ ↦ succeeds_bind_total fun search hsearch ↦ ?_).trans and_comm
  refine (succeeds_bind_total fun found _ ↦ (succeeds_bind_total fun copies _ ↦
    succeeds_place.mpr (schema_ne_nil ⟨search, hsearch⟩)).mpr ?_).mpr ?_
  · refine succeeds_mapM.mpr fun x hx ↦ succeeds_bind_ok.mpr ?_
    exact Block.succeeds_column.mpr (carried_subset (List.fst_mem_of_mem_zipIdx hx))
  · refine succeeds_mapM.mpr fun x hx ↦ succeeds_bind_ok.mpr ?_
    exact Block.succeeds_column.mpr (List.fst_mem_of_mem_zipIdx hx)

theorem succeeds_antiColumns :
    Succeeds (antiColumns sheet s) ↔ Succeeds s.leftKey ∧ Succeeds s.rightKey := by
  refine (succeeds_bind_iff fun key _ ↦ succeeds_bind_total fun search _ ↦ ?_).trans and_comm
  refine succeeds_filterMapM.mpr fun ⟨n, j⟩ hx ↦ ?_
  dsimp only
  split
  · simp
  · next h =>
    refine succeeds_bind_ok.mpr (Block.succeeds_column.mpr ?_)
    have hn : n ∈ s.left.schema ++ s.carried := List.fst_mem_of_mem_zipIdx hx
    rcases List.mem_append.mp hn with hn | hn
    · exact absurd (by simpa using hn) h
    · exact carried_subset hn

theorem succeeds_outerJoin (hl : Rooted s.left) (hr : Rooted s.right) :
    Succeeds (outerJoin counter s) ↔ Succeeds s.leftKey ∧ Succeeds s.rightKey := by
  simp only [outerJoin, hl.depth_eq, hr.depth_eq, succ_whole, Extent.add_whole]
  refine Iff.trans (succeeds_bind_total fun left hleft ↦ ?_) succeeds_leftColumns
  have hkeys := succeeds_leftColumns.mp ⟨left, hleft⟩
  have hplace := fun sheet last edits ↦
    (@succeeds_place sheet s.schema last edits).mpr (schema_ne_nil hkeys.1)
  refine (succeeds_bind_total fun J _ ↦ ?_).mpr (hplace _ _ _)
  refine (succeeds_bind_total fun anti _ ↦ ?_).mpr (succeeds_antiColumns.mpr hkeys)
  exact (succeeds_bind_total fun A _ ↦ hplace _ _ _).mpr (hplace _ _ _)

theorem succeeds_join (hl : Rooted s.left) (hr : Rooted s.right) (k : JoinKind) :
    Succeeds (join counter k s) ↔ (∃ k ∈ s.leftOn.head?, k ∈ s.left.schema) ∧
      ∃ k ∈ s.rightOn.head?, k ∈ s.right.schema := by
  rw [← succeeds_leftKey, ← succeeds_rightKey]
  cases k with
  | left => exact succeeds_leftJoin hl
  | inner => exact succeeds_innerJoin hl
  | right => exact succeeds_rightJoin hr
  | outer => exact succeeds_outerJoin hl hr

end Join

theorem succeeds_keyColumns : Succeeds (keyColumns b keys) ↔ keys ≠ [] ∧ keys ⊆ b.schema := by
  match keys with
  | [] => exact iff_of_false (by simp [keyColumns, consecutive, Succeeds]) (by simp)
  | [k] => simp [keyColumns, Block.succeeds_column]
  | k :: k' :: ks =>
    rw [keyColumns]
    · rw [and_iff_right (by simp)]
      have hplaces : Succeeds ((k :: k' :: ks).mapM (position b.schema)) ↔
          (k :: k' :: ks) ⊆ b.schema :=
        succeeds_mapM.trans (forall₂_congr fun n _ ↦ succeeds_position)
      rw [← hplaces]
      refine succeeds_bind_total fun places hok ↦ ?_
      split
      · obtain ⟨i, rest, -, -, rfl⟩ := Outcome.mapM_cons_eq_ok.mp hok
        simp [List.min?, List.max?]
      · simp
    · simp

theorem forall_mem_zipIdx {α : Type} {P : α → Prop} {xs : List α} :
    (∀ x ∈ xs.zipIdx, P x.1) ↔ ∀ a ∈ xs, P a := by
  rw [← List.forall_mem_map (f := Prod.fst), List.zipIdx_map_fst]

theorem succeeds_keyCriteria {number : Nat} :
    Succeeds (keyCriteria b sheet keys number) ↔ keys ⊆ b.schema := by
  refine succeeds_bind_ok.trans (succeeds_mapM.trans (Iff.trans ?_ forall_mem_zipIdx))
  exact forall₂_congr fun x _ ↦ succeeds_bind_ok.trans Block.succeeds_column

theorem succeeds_groupColumn {col : Nat} {a : Aggregation} :
    Succeeds (groupColumn b sheet keys col a) ↔ Succeeds (conditional a.func) ∧
      (a.func ≠ "count" → a.column ∈ b.schema) ∧ keys ⊆ b.schema := by
  have hvalue : Succeeds (valueArgs b a) ↔ (a.func ≠ "count" → a.column ∈ b.schema) := by
    unfold valueArgs
    split
    · next h => simp [h]
    · next h => exact succeeds_bind_ok.trans (Block.succeeds_column.trans (by simp [h]))
  rw [groupColumn, ← hvalue]
  refine succeeds_bind_iff fun func _ ↦ succeeds_bind_iff fun value _ ↦ succeeds_mapM.trans ?_
  have hrow : ∀ i, Succeeds (keyCriteria b sheet keys (i + 2)) ↔ keys ⊆ b.schema :=
    fun i ↦ succeeds_keyCriteria
  constructor
  · exact fun h ↦ (hrow 0).mp (succeeds_bind_ok.mp (h 0 (by decide)))
  · exact fun h i _ ↦ succeeds_bind_ok.mpr ((hrow i).mpr h)

theorem succeeds_groupBy :
    Succeeds (groupBy counter keys aggs b) ↔ keys ≠ [] ∧ keys ⊆ b.schema ∧
      ∀ a ∈ aggs, Succeeds (conditional a.func) ∧
        (a.func ≠ "count" → a.column ∈ b.schema) := by
  have hplace : Succeeds (groupBy counter keys aggs b) ↔ (keys ≠ [] ∧ keys ⊆ b.schema) ∧
      (∀ a ∈ aggs, Succeeds (conditional a.func) ∧ (a.func ≠ "count" → a.column ∈ b.schema) ∧
        keys ⊆ b.schema) ∧ keys ++ aggs.map (·.output) ≠ [] := by
    refine (succeeds_bind_iff fun t _ ↦ succeeds_bind_iff fun cols _ ↦ succeeds_place).trans ?_
    refine and_congr succeeds_keyColumns (and_congr_left fun _ ↦ ?_)
    refine succeeds_mapM.trans (Iff.trans ?_ forall_mem_zipIdx)
    exact forall₂_congr fun x _ ↦ succeeds_groupColumn
  rw [hplace]
  constructor
  · rintro ⟨⟨hne, hsub⟩, haggs, -⟩
    exact ⟨hne, hsub, fun a ha ↦ ⟨(haggs a ha).1, (haggs a ha).2.1⟩⟩
  · rintro ⟨hne, hsub, haggs⟩
    exact ⟨⟨hne, hsub⟩, fun a ha ↦ ⟨(haggs a ha).1, (haggs a ha).2, hsub⟩,
      List.append_ne_nil_of_left_ne_nil hne _⟩

theorem succeeds_aggregate :
    Succeeds (aggregate counter aggs b) ↔ aggs ≠ [] ∧
      ∀ a ∈ aggs, Succeeds (total a.func) ∧ a.column ∈ b.schema := by
  have hplace : Succeeds (aggregate counter aggs b) ↔
      (∀ a ∈ aggs, Succeeds (total a.func) ∧ a.column ∈ b.schema) ∧
        aggs.map (·.output) ≠ [] := by
    refine (succeeds_bind_iff fun ts _ ↦ succeeds_place).trans (and_congr_left fun _ ↦ ?_)
    refine succeeds_mapM.trans (Iff.trans ?_ forall_mem_zipIdx)
    exact forall₂_congr fun x _ ↦
      succeeds_bind_iff fun func _ ↦ succeeds_bind_ok.trans Block.succeeds_column
  rw [hplace, and_comm, ne_eq, List.map_eq_nil_iff]

def pivotFunctions : List String := ["first", "sum", "mean", "count", "min", "max"]

theorem succeeds_cellTerm {p : PivotRefs} {func : String} {row col : Term} :
    Succeeds (p.cellTerm func row col) ↔ func ∈ pivotFunctions := by
  unfold PivotRefs.cellTerm
  split <;> simp_all [pivotFunctions]

theorem succeeds_pivot {index : List String} {columns values : String} {aggfunc : Option String}
    {colCount rowCount : Option Nat} :
    Succeeds (pivot counter index columns values aggfunc colCount rowCount b) ↔
      ∃ name, index = [name] ∧ name ∈ b.schema ∧ columns ∈ b.schema ∧ values ∈ b.schema ∧
        aggfunc.getD "first" ∈ pivotFunctions := by
  unfold pivot
  dsimp only
  split
  · simp
  · simp
  · next name =>
    simp only [List.cons.injEq, and_true, exists_eq_left']
    rw [← Block.succeeds_column, ← Block.succeeds_column, ← Block.succeeds_column]
    refine succeeds_bind_iff fun i _ ↦ succeeds_bind_iff fun c _ ↦ succeeds_bind_iff fun v _ ↦ ?_
    refine Iff.trans (succeeds_bind_total fun t ht ↦ ?_) succeeds_cellTerm
    have hfunc := succeeds_cellTerm.mp ⟨t, ht⟩
    refine (succeeds_bind_total fun cells _ ↦ (succeeds_bind_ok.mpr ?_)).mpr ?_
    · unfold Range.fromOrigin Range.ofCorners
      rw [dif_neg (by omega), dif_neg (by omega)]
      simp
    · refine succeeds_mapM.mpr fun k _ ↦ succeeds_mapM.mpr fun j _ ↦ succeeds_bind_ok.mpr ?_
      exact succeeds_cellTerm.mpr hfunc

theorem succeeds_melt (hb : Rooted b) {idVars : List String} {valueVars : Option (List String)}
    {varName valueName : String} :
    Succeeds (melt counter idVars valueVars varName valueName b) ↔
      idVars ≠ [] ∧ idVars ⊆ b.schema ∧ melted b.schema idVars valueVars ≠ [] ∧
        melted b.schema idVars valueVars ⊆ b.schema := by
  unfold melt
  dsimp only
  generalize melted b.schema idVars valueVars = vars
  rw [hb.depth_eq, Extent.times, succ_whole]
  split
  · next h => exact iff_of_false (by simp) fun h' ↦ h'.2.2.1 (by simpa using h)
  · next h =>
    have hvars : vars ≠ [] := by simpa using h
    cases idVars with
    | nil => simp
    | cons first rest =>
      rw [and_iff_right (by simp), and_iff_right hvars]
      have hrefs : Succeeds (vars.mapM b.column) ↔ vars ⊆ b.schema :=
        succeeds_mapM.trans (forall₂_congr fun n _ ↦ Block.succeeds_column)
      refine (succeeds_bind_iff fun f _ ↦ succeeds_bind_iff fun ids _ ↦ succeeds_bind_iff
        fun refs _ ↦ succeeds_place).trans ?_
      refine (and_congr_right fun _ ↦ and_congr_left fun _ ↦ succeeds_mapM.trans (Iff.trans
        (forall₂_congr fun x _ ↦ succeeds_bind_ok.trans Block.succeeds_column)
        (@forall_mem_zipIdx _ (· ∈ b.schema) (first :: rest)))).trans ?_
      rw [hrefs, Block.succeeds_column]
      constructor
      · exact fun h ↦ ⟨h.2.1, h.2.2.1⟩
      · exact fun h ↦ ⟨h.1 (by simp), h.1, h.2, by simp⟩

section Window

variable {w : WindowFrame} {func : String} {input : Option String} {frame : Datum}

def ordersBy (schema partitionBy : List String) (orderBy : List SortKey) : Prop :=
  partitionBy ⊆ schema ∧ ∀ k ∈ orderBy, k.column ∈ schema

/-- Whether a window function has the columns and parameters that it needs over any rows. -/
def windowSuits (schema : List String) (func : String) (input : Option String)
    (partitionBy : List String) (frame : Datum) : Prop :=
  if func = "rank" ∨ func = "row_number" then True
  else if func = "lag" ∨ func = "lead" then partitionBy = [] ∧ Succeeds (distance frame) ∧
    ∃ n, inputName func false input = .ok n ∧ n ∈ schema
  else (runningFunction? func).isSome = true ∧
    (frame.truthy && frame != .text runningFrame) = false ∧
    ∃ n, inputName func true input = .ok n ∧ n ∈ schema

def windowOrders (func : String) : Bool := func != "lag" && func != "lead"

theorem succeeds_partitionArgs (number : Nat) :
    Succeeds (w.partitionArgs number) ↔ w.partitionBy ⊆ w.block.schema :=
  succeeds_bind_ok.trans (succeeds_mapM.trans
    (forall₂_congr fun _ _ ↦ succeeds_bind_ok.trans succeeds_position))

theorem succeeds_orderArgs (strict : Bool) (number : Nat) :
    Succeeds (w.orderArgs strict number) ↔ ∀ k ∈ w.orderBy, k.column ∈ w.block.schema :=
  succeeds_bind_ok.trans (succeeds_mapM.trans
    (forall₂_congr fun _ _ ↦ succeeds_bind_ok.trans succeeds_position))

theorem succeeds_tieArgs (number : Nat) :
    Succeeds (w.tieArgs number) ↔ ∀ k ∈ w.orderBy, k.column ∈ w.block.schema :=
  succeeds_bind_ok.trans (succeeds_mapM.trans
    (forall₂_congr fun _ _ ↦ succeeds_bind_ok.trans succeeds_position))

theorem succeeds_rank (numbered : Bool) (number : Nat) :
    Succeeds (w.rank numbered number) ↔ ordersBy w.block.schema w.partitionBy w.orderBy := by
  unfold ordersBy
  rw [← succeeds_partitionArgs number]
  refine succeeds_bind_iff fun ps _ ↦ Iff.trans (succeeds_bind_total fun os hos ↦ ?_)
    (succeeds_orderArgs numbered number)
  split
  · refine succeeds_bind_ok.mpr ((succeeds_tieArgs number).mpr ?_)
    exact (succeeds_orderArgs numbered number).mp ⟨os, hos⟩
  · simp

theorem succeeds_running (column : Term) (number : Nat) :
    Succeeds (w.running func column number) ↔
      ordersBy w.block.schema w.partitionBy w.orderBy := by
  unfold ordersBy
  rw [← succeeds_partitionArgs number]
  exact succeeds_bind_iff fun ps _ ↦ succeeds_bind_ok.trans (succeeds_orderArgs false number)

theorem succeeds_shifted :
    Succeeds (shifted w func input frame) ↔ w.partitionBy = [] ∧ Succeeds (distance frame) ∧
      ∃ n, inputName func false input = .ok n ∧ n ∈ w.block.schema := by
  unfold shifted
  dsimp only
  split
  · next h => exact iff_of_false (by simp) fun h' ↦ by simp [h'.1] at h
  · next h =>
    rw [and_iff_right (by simpa using h)]
    refine Outcome.succeeds_bind.trans ?_
    constructor
    · rintro ⟨n, hn, hrest⟩
      obtain ⟨hd, hrest⟩ := (succeeds_bind_iff fun d _ ↦ succeeds_bind_ok).mp hrest
      exact ⟨hd, n, hn, succeeds_position.mp hrest⟩
    · rintro ⟨hd, n, hn, hmem⟩
      refine ⟨n, hn, (succeeds_bind_iff fun d _ ↦ succeeds_bind_ok).mpr ⟨hd, ?_⟩⟩
      exact succeeds_position.mpr hmem

theorem succeeds_accumulated :
    Succeeds (accumulated w func input frame) ↔ (runningFunction? func).isSome = true ∧
      (frame.truthy && frame != .text runningFrame) = false ∧
      ∃ n, inputName func true input = .ok n ∧ n ∈ w.block.schema := by
  unfold accumulated
  split
  · next h => simp [h]
  · next conditional h =>
    simp only [h, Option.isSome_some, true_and]
    split
    · next hf => exact iff_of_false (by simp) fun h' ↦ by simp [h'.1] at hf
    · next hf =>
      rw [and_iff_right (by simpa using hf)]
      refine Outcome.succeeds_bind.trans (exists_congr fun n ↦ and_congr_right fun _ ↦ ?_)
      exact succeeds_bind_ok.trans Block.succeeds_column

theorem succeeds_windowTerm :
    Succeeds (windowTerm w func input frame) ↔
      windowSuits w.block.schema func input w.partitionBy frame := by
  unfold windowTerm windowSuits
  split
  · simp
  · simp
  · exact succeeds_shifted
  · exact succeeds_shifted
  · next h₁ h₂ h₃ h₄ =>
    rw [if_neg (not_or.mpr ⟨h₁, h₂⟩), if_neg (not_or.mpr ⟨h₃, h₄⟩)]
    exact succeeds_accumulated

theorem windowTerm_ensures :
    Outcome.Ensures (windowTerm w func input frame) fun f ↦ ∀ number, Succeeds (f number) ↔
      (windowOrders func = true → ordersBy w.block.schema w.partitionBy w.orderBy) := by
  have hshifted : ∀ func, Outcome.Ensures (shifted w func input frame) fun f ↦
      ∀ number, Succeeds (f number) := by
    intro func
    unfold shifted
    dsimp only
    split
    · rw [Outcome.error_bind]
      exact .error _
    · refine .skip fun n ↦ ?_
      refine .skip fun d ↦ ?_
      refine .skip fun i ↦ ?_
      exact .ok fun number ↦ Outcome.succeeds_ok _
  unfold windowTerm
  split
  · exact .ok fun number ↦ (succeeds_rank false number).trans (by simp [windowOrders])
  · exact .ok fun number ↦ (succeeds_rank true number).trans (by simp [windowOrders])
  · exact (hshifted _).mono fun f hf number ↦ iff_of_true (hf number) (by simp [windowOrders])
  · exact (hshifted _).mono fun f hf number ↦ iff_of_true (hf number) (by simp [windowOrders])
  · next h₁ h₂ =>
    have horders : windowOrders func = true := by
      simp only [windowOrders, Bool.and_eq_true, bne_iff_ne]
      exact ⟨h₁, h₂⟩
    unfold accumulated
    split
    · exact .error _
    · dsimp only
      split
      · rw [Outcome.error_bind]
        exact .error _
      · refine .skip fun n ↦ ?_
        refine .skip fun c ↦ .ok ?_
        exact fun number ↦ (succeeds_running c number).trans (by simp [horders])

theorem succeeds_window (hb : Rooted b) {output : String} {partitionBy : List String}
    {orderBy : List SortKey} :
    Succeeds (window counter func input output partitionBy orderBy frame b) ↔
      windowSuits b.schema func input partitionBy frame ∧
        (b.range.rowEnd ≠ 0 → windowOrders func = true → ordersBy b.schema partitionBy orderBy) := by
  unfold window
  dsimp only
  rw [hb.depth_eq, succ_whole]
  refine (succeeds_bind_iff fun copies _ ↦ succeeds_bind_iff fun term hterm ↦
    (succeeds_bind_total fun cells _ ↦ succeeds_place.mpr (by simp)).trans ?_).trans
    ((and_iff_right ?_).trans (and_congr_left fun _ ↦ succeeds_windowTerm))
  rotate_left
  · exact succeeds_mapM.mpr fun x hx ↦ succeeds_bind_ok.mpr
      (Block.succeeds_column.mpr (List.fst_mem_of_mem_zipIdx hx))
  have hf := windowTerm_ensures term hterm
  refine succeeds_mapM.trans ?_
  constructor
  · intro h hne
    have := h 0 (List.mem_range.mpr (Nat.pos_of_ne_zero hne))
    exact (hf _).mp (succeeds_bind_ok.mp this)
  · intro h i hi
    refine succeeds_bind_ok.mpr ((hf _).mpr (h ?_))
    have := List.mem_range.mp hi
    omega

end Window

end Layout

end Gridplan
