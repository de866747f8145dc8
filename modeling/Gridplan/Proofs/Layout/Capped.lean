import Gridplan.Proofs.Cells.Sorting
import Gridplan.Proofs.Layout.Rows
import Gridplan.Proofs.Layout.Tails
import Gridplan.Proofs.Optimize.Sorts

namespace Gridplan

namespace Cells

theorem constrain_rows {d : Datum} {ss : List (List Datum)} {w : Nat} (hd : rows d = ss.map .list)
    (hw : ∀ r ∈ ss, r.length = w) (n : Nat) :
    constrain d (.int n) (.int w) = .ok (table (ss.take n)) := by
  have hcut : ∀ r ∈ ss.take n, Datum.cut w (.list r) = .ok (.list r) := by
    intro r hr
    rw [Datum.cut, Datum.upTo, if_pos (Int.natCast_nonneg w), Int.toNat_natCast,
      List.take_of_length_le (hw r (List.mem_of_mem_take hr)).le]
  have htake : Datum.upTo n (rows d) = (ss.take n).map .list := by
    rw [Datum.upTo, if_pos (Int.natCast_nonneg n), Int.toNat_natCast, hd, List.map_take]
  simp only [constrain, Datum.asInt, Outcome.ok_bind, htake, List.mapM_map, Function.comp_def,
    Outcome.mapM_ok hcut]
  rfl

end Cells

namespace Formula

open Cells (table)

variable {E : Engine} {contents : Cell → Datum}

theorem Engine.array_constrain {t : Term} {d : Datum} {ss : List (List Datum)} {w : Nat}
    (ht : E.array contents t = .ok d) (hd : Cells.rows d = ss.map .list)
    (hw : ∀ r ∈ ss, r.length = w) (n : Nat) :
    E.array contents (.call "ARRAY_CONSTRAIN" [t, .int n, .int w]) = .ok (table (ss.take n)) := by
  have hargs : [t, .int n, .int w].mapM (E.array contents) = .ok [d, .int n, .int w] := by
    rw [List.mapM_cons, ht]
    rfl
  exact (Engine.array_call .arrayConstrain hargs).trans (Cells.constrain_rows hd hw n)

namespace Block

variable {b : Block} {ss : List (List Datum)}

def emptyRow (b : Block) : List Datum := List.replicate b.schema.length (.text "")

/-- Whether some rows stand in a block, and empty cells below them. -/
structure Displays (contents : Cell → Datum) (b : Block) (ss : List (List Datum)) : Prop where
  atoms : ∀ c, (contents c).isAtom = true
  width : ∀ row ∈ ss, row.length = b.schema.length
  below : ∃ k, b.seen contents = ss ++ List.replicate k b.emptyRow

end Block

end Formula

namespace Layout

open Formula

variable {E : Engine} {contents : Cell → Datum} {b : Block} {keys : List SortKey}
  {c : Option Expr} {counter : Nat} {ss : List (List Datum)}

def filledRows (d : Datum) : List (List Datum) := (Cells.cells d).filter isFilled

theorem filledRows_table (ss : List (List Datum)) :
    filledRows (Cells.table ss) = ss.filter isFilled := by
  rw [filledRows, Cells.cells_table]

theorem cutOff_some {n : Nat} (hn : 0 < n) (width : Nat) (t : Term) :
    cutOff (some n) width t = .call "ARRAY_CONSTRAIN" [t, .int n, .int width] := by
  obtain ⟨n, rfl⟩ := Nat.exists_eq_add_one.mpr hn
  rfl

theorem exists_sort {Q : Placement} (hb : b.part = none)
    (hQ : sort counter keys none c b = .ok Q) (cap : Option Nat) :
    ∃ P t, sort counter keys (cap.map .ofNat) c b = .ok P ∧ sorted keys c b = .ok t ∧
      put P.block.sheet 1 0 (cutOff cap b.schema.length t) ∈ P.edits ∧
      Occupies P.block (sheetName .sort counter) b.schema (sortedLast cap b.size) := by
  have hQ : sort counter keys ((none : Option Nat).map .ofNat) c b = .ok Q := hQ
  rw [sort_eq_place (Block.depth_eq_size hb)] at hQ ⊢
  obtain ⟨t, ht, hQ⟩ := Outcome.bind_eq_ok.mp hQ
  have hs : b.schema ≠ [] := succeeds_place.mp ⟨Q, hQ⟩
  rw [ht, Outcome.ok_bind]
  obtain ⟨P, hP, hput, hblock⟩ := exists_place_formula hs _ _ _ (cutOff cap b.schema.length t)
  exact ⟨P, t, hP, rfl, hput, hblock⟩

theorem Occupies.size_eq {sheet : String} {schema : List String} {last : Nat}
    (h : Occupies b sheet schema last) : b.size = last := by
  rw [Block.size, h.last, h.rooted.2.1, Nat.sub_zero]

theorem sortedLast_eq_min_iff (n m : Nat) : sortedLast (some n) m = min n m ↔ 0 < n ∧ n ≤ m := by
  cases n with
  | zero => simp [sortedLast]
  | succ n =>
    rw [sortedLast_some (Nat.succ_pos n)]
    omega

theorem cutOff_eq_iff {t : Term} (ht : sorted keys c b = .ok t) (n width : Nat) :
    cutOff (some n) width t = .call "ARRAY_CONSTRAIN" [t, .int n, .int width] ↔ 0 < n := by
  refine ⟨fun h ↦ Nat.pos_of_ne_zero ?_, fun hn ↦ cutOff_some hn width t⟩
  rintro rfl
  obtain ⟨args, -, ht⟩ := Outcome.bind_eq_ok.mp ht
  obtain ⟨first, -, ht⟩ := Outcome.bind_eq_ok.mp ht
  obtain ⟨conditions, -, ht⟩ := Outcome.bind_eq_ok.mp ht
  obtain rfl := Except.ok.inj ht
  exact absurd (Term.call.inj h).1 (by decide)

theorem array_cutOff {t : Term} (ht : E.array contents t = .ok (Cells.table ss)) {w : Nat}
    (hw : ∀ row ∈ ss, row.length = w) (n : Nat) :
    E.array contents (cutOff (some n) w t) =
      .ok (Cells.table (if 0 < n then ss.take n else ss)) := by
  cases n with
  | zero => exact ht
  | succ n => exact Engine.array_constrain ht Cells.rows_table hw (n + 1)

theorem array_limited_head {sheet : String} {schema : List String} {last : Nat}
    (hb : Occupies b sheet schema (last + 1)) (hs : b.schema ≠ []) (h : b.Displays contents ss)
    (n : Nat) : ∃ k, E.array contents (limited (.ofNat n) .head b) =
      .ok (Cells.table ((ss ++ List.replicate k b.emptyRow).take n)) := by
  obtain ⟨k, hk⟩ := h.below
  have hrow : b.range.row < b.range.rowEnd := by
    rw [hb.rooted.2.1, hb.last]
    exact Nat.succ_pos last
  have hcol : b.range.colEnd + 1 = b.range.col + b.schema.length := by
    rw [hb.rooted.2.2, Nat.zero_add]
    exact hb.width
  obtain ⟨d, hd, hrows⟩ := Block.array_body hb.rooted.1 hrow hcol hs h.atoms
  rw [hk] at hrows
  refine ⟨k, Engine.array_constrain hd hrows (fun row hmem ↦ ?_) n⟩
  rcases List.mem_append.mp hmem with hmem | hmem
  · exact h.width row hmem
  · rw [List.eq_of_mem_replicate hmem, Block.emptyRow, List.length_replicate]

theorem filter_take_append_empty (hs : b.schema ≠ []) (ss : List (List Datum)) (k n : Nat) :
    ((ss ++ List.replicate k b.emptyRow).take n).filter isFilled = (ss.take n).filter isFilled := by
  have hempty : isFilled b.emptyRow = false := by
    obtain ⟨name, rest, hschema⟩ := List.exists_cons_of_ne_nil hs
    rw [Block.emptyRow, hschema]
    rfl
  simp [List.take_append, List.filter_append, hempty]

variable {sources : Sources} {k : Option Nat} {x : Plan} {Q : Placement}

/-- A limit over a sort is fused into a bounded sort. The formula of this is cut off at the bound,
and it keeps as many rows as the limit keeps on a sheet of its own, unless the bound is zero. The
rows that are recorded for it are those up to the bound just when the bound is not zero and there
are as many rows. -/
theorem sort_limit_fused (hb : b.part = none) (hp : (Plan.node k (.sort keys none c) [x]).Built)
    (hQ : placeNode sources counter (.sort keys none c) [x] [b] = .ok Q) (n : Nat) :
    Optimize.fuse (.limit n .head) [.node k (.sort keys none c) [x]] =
      .ok (some (Plan.fresh (.sort keys (some n) c) [x])) ∧
    ∃ P L t u v, placeNode sources counter (.sort keys (some n) c) [x] [b] = .ok P ∧
      placeNode sources (counter + 1) (.limit n .head) [.node k (.sort keys none c) [x]]
        [Q.block] = .ok L ∧
      put Q.block.sheet 1 0 t ∈ Q.edits ∧ put P.block.sheet 1 0 u ∈ P.edits ∧
      put L.block.sheet 1 0 v ∈ L.edits ∧
      (u = .call "ARRAY_CONSTRAIN" [t, .int n, .int b.schema.length] ↔ 0 < n) ∧
      (P.block.size = min n b.size ↔ 0 < n ∧ n ≤ b.size) ∧
      ∀ (E : Engine) (contents : Cell → Datum) (ss : List (List Datum)),
        E.array contents t = .ok (Cells.table ss) → Q.block.Displays contents ss →
        ∃ d e, E.array contents u = .ok d ∧ E.array contents v = .ok e ∧
          (0 < n → filledRows d = filledRows e) ∧
          ((filledRows d).length = (filledRows e).length ↔ 0 < n ∨ ss.filter isFilled = []) := by
  refine ⟨Optimize.fuse_limit (Int.natCast_nonneg n) hp, ?_⟩
  have hQ : sort counter keys none c b = .ok Q := hQ
  obtain ⟨Q', t, hQ', ht, htQ, hblockQ⟩ := exists_sort hb hQ none
  obtain rfl : Q = Q' := Except.ok.inj (hQ.symm.trans hQ')
  obtain ⟨P, t', hP, ht', hu, hblock⟩ := exists_sort hb hQ (some n)
  obtain rfl : t = t' := Except.ok.inj (ht.symm.trans ht')
  have hs : Q.block.schema ≠ [] := by
    have hwidth := hblockQ.width
    intro hnil
    rw [hnil] at hwidth
    cases hwidth
  obtain ⟨L, hL, hv⟩ := exists_limit hblockQ.rooted.1 hs (counter + 1) n .head
  refine ⟨P, L, t, _, _, hP, hL, htQ, hu, hv, cutOff_eq_iff ht n _, ?_, ?_⟩
  · rw [hblock.size_eq]
    exact sortedLast_eq_min_iff n b.size
  · intro E contents ss hsorted hshown
    have hwidth : ∀ row ∈ ss, row.length = b.schema.length := hblockQ.schema ▸ hshown.width
    obtain ⟨j, hj⟩ := array_limited_head (E := E) hblockQ hs hshown n
    refine ⟨_, _, array_cutOff hsorted hwidth n, hj, ?_, ?_⟩
    · intro hn
      rw [if_pos hn, filledRows_table, filledRows_table, filter_take_append_empty hs]
    · rw [filledRows_table, filledRows_table, filter_take_append_empty hs]
      cases n with
      | zero => simp
      | succ n => simp

def sized : Relation where
  columns := ["name", "size"]
  rows := [[.text "fig", .int 2], [.text "pear", .int 5]]

def byName (cap : Option Int) : Operator := .sort [⟨"name", .asc⟩] cap none

def sizedSource : Plan := .node none (.source "s" (some sized.columns) none) []

theorem sort_limit_fused_sized :
    ∃ P L Q u v, placeNode [] 1 (byName none) [sizedSource] [Block.ofRelation "Source_0" sized] =
        .ok Q ∧
      placeNode [] 1 (byName (some 1)) [sizedSource] [Block.ofRelation "Source_0" sized] = .ok P ∧
      placeNode [] 2 (.limit 1 .head) [.node none (byName none) [sizedSource]] [Q.block] = .ok L ∧
      put P.block.sheet 1 0 u ∈ P.edits ∧ put L.block.sheet 1 0 v ∈ L.edits ∧ P.block.size = 1 ∧
      ∃ d e, Engine.apart.array (Block.filling sized) u = .ok d ∧
        Engine.apart.array (Block.filling sized) v = .ok e ∧ filledRows d = filledRows e := by
  have hp : (Plan.node none (byName none) [sizedSource]).Built := by
    simp [byName, sizedSource, sized, Plan.built_node, Operator.isTyped, Operator.Accepts,
      Plan.Offers, Plan.schema?]
  let shown := Block.ofRelation "Sort_1" ⟨sized.columns, List.replicate 3 []⟩
  obtain ⟨Q, hQ, hblock⟩ := Outcome.exists_of_any (x := placeNode [] 1 (byName none) [sizedSource]
    [Block.ofRelation "Source_0" sized]) (P := fun Q ↦ Q.block = shown) (by decide)
  obtain ⟨-, P, L, t, u, v, hP, hL, ht, hu, hv, -, hsize, hkept⟩ := sort_limit_fused rfl hp hQ 1
  have hfits : Block.Fits sized := by decide
  have hsort : sort 1 [⟨"name", .asc⟩] none none (Block.ofRelation "Source_0" sized) = .ok Q := hQ
  obtain ⟨t', hedits, -, hvalue⟩ := sort_value Engine.tellsBlank_apart (Block.bears_filling hfits)
    (List.cons_ne_nil _ _) hsort
  obtain rfl : t = t' := by simpa [hedits, opening, header, put] using ht
  have hsorted : Engine.apart.array (Block.filling sized) t = .ok (Cells.table sized.rows) := by
    have hsortable : ∀ k ∈ [(0, true)], ∀ r ∈ sized.rows,
        Cells.IsSortable (Cells.cellIn k.1 r) := by decide
    have hself : (Cells.byColumns [(0, true)]).sort sized.rows = sized.rows :=
      Ranking.sort_eq_self (by decide)
    have hne : sized.rows ≠ [] := List.cons_ne_nil _ _
    have hrows := Cells.sort_eq hne hsortable (by decide)
    rw [hself] at hrows
    exact hvalue.trans hrows
  have hdisplays : Q.block.Displays (Block.filling sized) sized.rows := by
    rw [hblock]
    exact ⟨Block.isAtom_filling hfits, by decide, 1, rfl⟩
  obtain ⟨d, e, hd, he, hfilled, -⟩ := hkept _ _ _ hsorted hdisplays
  exact ⟨P, L, Q, u, v, hQ, hP, hL, hu, hv, hsize.mpr (by decide), d, e, hd, he,
    hfilled Nat.one_pos⟩

/-- A bound of zero changes nothing, and three rows are recorded of two. -/
theorem sort_limit_miscounted :
    placeNode [] 1 (byName (some 0)) [sizedSource] [Block.ofRelation "Source_0" sized] =
      placeNode [] 1 (byName none) [sizedSource] [Block.ofRelation "Source_0" sized] ∧
    ∃ P, placeNode [] 1 (byName (some 3)) [sizedSource] [Block.ofRelation "Source_0" sized] =
        .ok P ∧ (Block.ofRelation "Source_0" sized).size = 2 ∧ P.block.size = 3 := by
  obtain ⟨P, hP, hsize⟩ := Outcome.exists_of_any (x := placeNode [] 1 (byName (some 3))
    [sizedSource] [Block.ofRelation "Source_0" sized]) (P := fun P ↦ P.block.size = 3) (by decide)
  exact ⟨rfl, P, hP, rfl, hsize⟩

end Layout

end Gridplan
