import Gridplan.Proofs.Layout.Nodes
import Gridplan.Proofs.Workbook.Contents

namespace Gridplan.Layout

open Formula
open Outcome (Ensures)
open List (Forall₂)

variable {kind : Kind} {counter width : Nat} {sheet : String} {schema : List String}
  {es body before : List Step} {ps : List (Nat × Nat)} {rows last : Extent} {P : Placement}
  {b l r : Block}

def Put (sheet : String) (p : Nat × Nat) (e : Step) : Prop := ∃ t, e = put sheet p.1 p.2 t

def Clear (sheet : String) (width : Nat) (es : List Step) : Prop :=
  ∃ ps, Forall₂ (Put sheet) ps es ∧ ps.Nodup ∧ ∀ p ∈ ps, p.1 = 0 → width ≤ p.2

structure Part.Tidy (p : Part) : Prop where
  fills : ∀ e ∈ p.body, e.sheet = p.name ∧ e.created = none ∧ e.needs? = none
  apart : p.body.Pairwise Edit.Apart

structure Tidy (es : List Step) (parts : List Part) : Prop where
  edits : es = parts.flatMap Part.edits
  nodup : (parts.map Part.name).Nodup
  tidy : ∀ p ∈ parts, p.Tidy

def Own (kind : Kind) (counter : Nat) (P : Placement) : Prop :=
  ∃ parts, Tidy P.edits parts ∧ ∀ p ∈ parts, Belongs kind counter p.name

theorem pairwise_of_forall₂ {α β : Type} {R : α → β → Prop} {S : α → α → Prop} {T : β → β → Prop}
    {xs : List α} {ys : List β} (h : Forall₂ R xs ys) (hS : xs.Pairwise S)
    (hT : ∀ a b c d, R a c → R b d → S a b → T c d) : ys.Pairwise T := by
  induction h with
  | nil => exact .nil
  | cons hxy hrest ih =>
    obtain ⟨hx, hxs⟩ := List.pairwise_cons.mp hS
    refine .cons (fun y hy ↦ ?_) (ih hxs)
    obtain ⟨x, hmem, hxy'⟩ := exists_of_forall₂ hrest hy
    exact hT _ _ _ _ hxy hxy' (hx x hmem)

theorem mem_cells_header {cell : Int × Int} (h : cell ∈ (header sheet schema).cells) :
    cell.1 = 0 ∧ cell.2 < schema.length := by
  have hmatrix : (Datum.list [Datum.ofTexts schema]).matrix = [schema.map .text] := rfl
  simp only [header, Edit.cells, Edit.writes, hmatrix, List.zipIdx_cons, List.zipIdx_nil,
    List.flatMap_cons, List.flatMap_nil, List.append_nil, List.map_map, List.mem_map] at h
  obtain ⟨⟨x, j⟩, hj, rfl⟩ := h
  have hlt := List.snd_lt_of_mem_zipIdx hj
  simp only [List.length_map] at hlt
  simpa using hlt

theorem cells_put (row col : Nat) (t : Term) :
    (put sheet row col t).cells = [((row : Int), (col : Int))] := rfl

def Part.headed (sheet : String) (rows : Extent) (schema : List String) (body : List Step) : Part :=
  ⟨sheet, rows.toNumber, schema.length, header sheet schema :: body⟩

theorem Clear.tidy_cons (h : Clear sheet schema.length body) {rows : Number} {cols : Int} :
    (Part.mk sheet rows cols (header sheet schema :: body)).Tidy := by
  obtain ⟨ps, hputs, hnodup, hclear⟩ := h
  constructor
  · refine List.forall_mem_cons.mpr ⟨⟨rfl, rfl, rfl⟩, fun e he ↦ ?_⟩
    obtain ⟨p, -, t, rfl⟩ := exists_of_forall₂ hputs he
    exact ⟨rfl, rfl, rfl⟩
  · refine .cons (fun e he _ ↦ ?_) (pairwise_of_forall₂ hputs hnodup ?_)
    · obtain ⟨p, hp, t, rfl⟩ := exists_of_forall₂ hputs he
      rw [cells_put]
      refine List.disjoint_singleton.mpr fun hcell ↦ ?_
      obtain ⟨hrow, hcol⟩ := mem_cells_header hcell
      have := hclear p hp (Int.natCast_eq_zero.mp hrow)
      omega
    · rintro ⟨r, c⟩ ⟨r', c'⟩ _ _ ⟨t, rfl⟩ ⟨t', rfl⟩ hne _
      simpa [cells_put, eq_comm] using hne

theorem Clear.tidy (h : Clear sheet schema.length body) :
    (Part.headed sheet rows schema body).Tidy := h.tidy_cons

theorem fromOrigin_pos (rowEnd colEnd : Int) :
    Ensures (Range.fromOrigin rowEnd colEnd) fun _ ↦ 0 ≤ colEnd := by
  unfold Range.fromOrigin Range.ofCorners
  split
  · exact .error _
  · split
    · exact .error _
    · exact .ok (by omega)

theorem place_keeps (sheet : String) (schema : List String) (last : Extent) (edits : List Step) :
    Ensures (place sheet schema last edits) fun P ↦ P.edits = edits ∧ P.block.sheet = sheet := by
  unfold place
  cases last <;> exact (ensures_true _).bind fun _ _ ↦ .ok ⟨rfl, rfl⟩

theorem place_pos (sheet : String) (schema : List String) (last : Extent) (edits : List Step) :
    Ensures (place sheet schema last edits) fun _ ↦ 0 < schema.length := by
  unfold place
  cases last <;> exact (fromOrigin_pos _ _).bind fun _ h ↦ .ok (by omega)

def Below (ps : List (Nat × Nat)) : Prop := ps.Nodup ∧ ∀ p ∈ ps, p.1 ≠ 0

theorem below_nil : Below [] := ⟨List.nodup_nil, by simp⟩

theorem below_single : Below [(1, 0)] := ⟨List.nodup_singleton _, by simp⟩

theorem Below.clear (h : Below ps) (hputs : Forall₂ (Put sheet) ps es) : Clear sheet width es :=
  ⟨ps, hputs, h.1, fun p hp hrow ↦ absurd hrow (h.2 p hp)⟩

/-- Whether a placement has, after other edits, a sheet with formulas in given cells, on which its
block stands. -/
structure Formed (before : List Step) (sheet : String) (schema : List String)
    (ps : List (Nat × Nat)) (P : Placement) : Prop where
  edits : ∃ rows body, P.edits = before ++ (opening sheet rows schema ++ body) ∧
    Forall₂ (Put sheet) ps body
  block : P.block.sheet = sheet
  pos : 0 < schema.length

theorem place_formed (before : List Step) (hputs : Forall₂ (Put sheet) ps body) :
    Ensures (place sheet schema last (before ++ (opening sheet rows schema ++ body)))
      (Formed before sheet schema ps) := by
  intro P h
  obtain ⟨hedits, hsheet⟩ := place_keeps _ _ _ _ P h
  exact ⟨⟨rows, body, hedits, hputs⟩, hsheet, place_pos _ _ _ _ P h⟩

theorem place_puts (hputs : Forall₂ (Put sheet) ps body) :
    Ensures (place sheet schema last (opening sheet rows schema ++ body))
      (Formed [] sheet schema ps) := place_formed [] hputs

theorem place_put (t : Term) :
    Ensures (place sheet schema last (opening sheet rows schema ++ [put sheet 1 0 t]))
      (Formed [] sheet schema [(1, 0)]) := place_puts (.cons ⟨t, rfl⟩ .nil)

theorem Formed.exists_part (h : Formed [] sheet schema ps P) (hps : Below ps) :
    ∃ part : Part, P.edits = part.edits ∧ part.name = sheet ∧ part.Tidy := by
  obtain ⟨rows, body, hedits, hputs⟩ := h.edits
  exact ⟨.headed sheet rows schema body, hedits, rfl, (hps.clear hputs).tidy⟩

theorem Formed.own {parts : List Part} (h : Formed (parts.flatMap Part.edits) sheet schema ps P)
    (hps : Below ps) (hparts : ∀ p ∈ parts, p.Tidy) (hnodup : (parts.map Part.name ++ [sheet]).Nodup)
    (hbelongs : ∀ p ∈ parts, Belongs kind counter p.name) (hsheet : Belongs kind counter sheet) :
    Own kind counter P := by
  obtain ⟨rows, body, hedits, hputs⟩ := h.edits
  refine ⟨parts ++ [.headed sheet rows schema body], ⟨?_, ?_, ?_⟩, ?_⟩
  · rw [hedits, List.flatMap_append, List.flatMap_singleton]
    rfl
  · rwa [List.map_append]
  · exact List.forall_mem_append.mpr ⟨hparts, List.forall_mem_singleton.mpr (hps.clear hputs).tidy⟩
  · exact List.forall_mem_append.mpr ⟨hbelongs, List.forall_mem_singleton.mpr hsheet⟩

theorem Formed.own_sole (h : Formed [] (sheetName kind counter) schema ps P) (hps : Below ps) :
    Own kind counter P := by
  rw [← List.flatMap_nil (f := Part.edits)] at h
  exact h.own hps (by simp) (by simp) (by simp) (belongs_self ..)

theorem map_range_length {α β : Type} (g : Nat → β) (xs : List α) :
    (List.range xs.length).map g = xs.zipIdx.map fun x ↦ g x.2 := by
  rw [List.range_eq_range', ← List.zipIdx_map_snd 0 xs, List.map_map]
  rfl

section Puts

variable {α : Type} {f : α × Nat → Outcome Step} {g : Nat → Nat × Nat}

theorem puts_zipIdx {xs : List α} {es : List Step}
    (h : Forall₂ (fun x e ↦ Put sheet (g x.2) e) xs.zipIdx es) :
    Forall₂ (Put sheet) ((List.range xs.length).map g) es := by
  rw [map_range_length]
  exact List.forall₂_map_left_iff.mpr h

theorem puts_mapM {xs : List α} (h : ∀ x ∈ xs.zipIdx, Ensures (f x) (Put sheet (g x.2))) :
    Ensures (xs.zipIdx.mapM f) (Forall₂ (Put sheet) ((List.range xs.length).map g)) :=
  (Ensures.mapM_forall₂ h).mono fun _ ↦ puts_zipIdx

end Puts

theorem nodup_grid {m n : Nat} {g : Nat → Nat → Nat × Nat}
    (hg : ∀ a b c d, g a b = g c d → a = c ∧ b = d) :
    ((List.range m).flatMap fun a ↦ (List.range n).map (g a)).Nodup := by
  have hproduct : ((List.range m).flatMap fun a ↦ (List.range n).map (g a)) =
      (List.range m ×ˢ List.range n).map fun x ↦ g x.1 x.2 := by
    simp [SProd.sprod, List.product, List.map_flatMap, Function.comp_def]
  rw [hproduct]
  refine (List.nodup_range.product List.nodup_range).map ?_
  rintro ⟨a, b⟩ ⟨c, d⟩ h
  obtain ⟨rfl, rfl⟩ := hg a b c d h
  rfl

def across (start n : Nat) : List (Nat × Nat) := (List.range n).map fun j ↦ (1, start + j)

theorem across_append (start m n : Nat) :
    across start m ++ across (start + m) n = across start (m + n) := by
  simp [across, List.range_add, List.map_append, Function.comp_def, Nat.add_assoc]

theorem mem_across {start n : Nat} {p : Nat × Nat} :
    p ∈ across start n ↔ p.1 = 1 ∧ start ≤ p.2 ∧ p.2 < start + n := by
  obtain ⟨r, c⟩ := p
  simp only [across, List.mem_map, List.mem_range, Prod.mk.injEq]
  constructor
  · rintro ⟨j, hj, rfl, rfl⟩
    omega
  · rintro ⟨rfl, hle, hlt⟩
    exact ⟨c - start, by omega, rfl, by omega⟩

theorem nodup_across (start n : Nat) : (across start n).Nodup :=
  List.nodup_range.map fun i j h ↦ by simpa using h

theorem below_across (start n : Nat) : Below (across start n) :=
  ⟨nodup_across start n, fun p hp ↦ by simp [(mem_across.mp hp).1]⟩

theorem puts_first (sheet : String) {α : Type} {f : α × Nat → Outcome Step} {xs : List α}
    (h : ∀ x ∈ xs.zipIdx, Ensures (f x) (Put sheet (1, x.2))) :
    Ensures (xs.zipIdx.mapM f) (Forall₂ (Put sheet) (across 0 xs.length)) := by
  simpa [across] using puts_mapM h

def under (keep : String × Nat → Bool) (names : List String) : List (Nat × Nat) :=
  (names.zipIdx.filter keep).map fun x ↦ (1, x.2)

theorem nodup_under (keep : String × Nat → Bool) (names : List String) :
    (under keep names).Nodup := by
  refine List.pairwise_map.mpr (((Edit.zipIdx_pairwise names).filter _).imp fun h ↦ ?_)
  simpa using h

theorem below_under (keep : String × Nat → Bool) (names : List String) :
    Below (under keep names) := by
  refine ⟨nodup_under keep names, fun p hp ↦ ?_⟩
  obtain ⟨x, _, rfl⟩ := List.mem_map.mp hp
  exact one_ne_zero

theorem puts_under {p : String → Bool} {names : List String} (g : Term → Term) :
    Ensures (names.zipIdx.filterMapM fun x ↦
        if p x.1 then .ok none else do return some (put sheet 1 x.2 (g (← b.column x.1))))
      (Forall₂ (Put sheet) (under (fun x ↦ !p x.1) names)) := by
  refine (Ensures.filterMapM_forall₂ (fun x _ hx ↦ ?_) fun x _ hx ↦ ?_).mono
    fun _ hes ↦ List.forall₂_map_left_iff.mpr hes
  · rw [if_neg (by simpa using hx)]
    exact .skip fun t ↦ .ok ⟨_, rfl, _, rfl⟩
  · rw [if_pos (by simpa using hx)]
    exact .ok rfl

theorem source_own (schema : Option (List String)) (data : Datum) :
    Ensures (source counter schema data) (Own .source counter) := by
  unfold source
  split
  · exact .error _
  · exact .error _
  · next names _ =>
    let sheet := sheetName .source counter
    have hbelow : (header sheet names).Apart (.values sheet 1 0 data) := by
      intro _ cell hhead hdata
      have hrow := (mem_cells_header hhead).1
      simp only [Edit.cells, Edit.writes, List.mem_map, List.mem_flatMap] at hdata
      obtain ⟨_, ⟨⟨xs, i⟩, _, ⟨x, j⟩, _, rfl⟩, rfl⟩ := hdata
      simp only at hrow
      omega
    intro P h
    refine ⟨[⟨sheet, .int (rowCount data + 1 : Nat), names.length,
      [header sheet names, .values sheet 1 0 data]⟩], ⟨?_, by simp, ?_⟩, ?_⟩
    · exact (place_ensures _ _ _ _ P h).1
    · refine List.forall_mem_singleton.mpr ⟨?_, ?_⟩
      · simp [header, Edit.sheet, Edit.created, Edit.needs?]
      · simpa using hbelow
    · simpa using belongs_self .source counter

theorem select_formed (columns : List String) (predicate : Option Expr) :
    Ensures (select counter columns predicate b)
      (Formed [] (sheetName .select counter) columns [(1, 0)]) :=
  .skip fun _ ↦ .skip fun _ ↦ .skip fun _ ↦ place_put _

theorem filter_formed (predicate : Expr) :
    Ensures (filter counter predicate b)
      (Formed [] (sheetName .filter counter) b.schema [(1, 0)]) :=
  .skip fun _ ↦ place_put _

theorem sort_formed (keys : List SortKey) (cap : Option Amount) (predicate : Option Expr) :
    Ensures (sort counter keys cap predicate b)
      (Formed [] (sheetName .sort counter) b.schema [(1, 0)]) := by
  refine .skip fun args ↦ .skip fun first ↦ .skip fun conditions ↦ ?_
  dsimp only
  split <;> exact place_put _

theorem limit_formed (count : Amount) (side : Side) :
    Ensures (limit counter count side b)
      (Formed [] (sheetName .limit counter) b.schema [(1, 0)]) := place_put _

theorem union_formed :
    Ensures (union counter l r) (Formed [] (sheetName .union counter) l.schema [(1, 0)]) := by
  unfold union
  split
  · exact place_put _
  · exact .error _

theorem position_ensures (schema : List String) (name : String) :
    Ensures (position schema name) fun j ↦ (name, j) ∈ schema.zipIdx := by
  unfold position
  split
  · next i hi =>
    obtain ⟨hlt, hname, _⟩ := List.idxOf?_eq_some_iff.mp hi
    exact .ok (List.mk_mem_zipIdx_iff_getElem?.mpr (List.getElem?_eq_some_iff.mpr ⟨hlt, hname⟩))
  · exact .error _

def computedCells (schema : List String) (column : String) (j : Nat) : List (Nat × Nat) :=
  under (fun x ↦ x.1 != column) schema ++ [(1, j)]

theorem below_computedCells {column : String} {j : Nat} (hj : position schema column = .ok j) :
    Below (computedCells schema column j) := by
  obtain ⟨hnodup, hrow⟩ := below_under (fun x ↦ x.1 != column) schema
  refine ⟨List.nodup_append.mpr ⟨hnodup, List.nodup_singleton _, ?_⟩,
    List.forall_mem_append.mpr ⟨hrow, by simp⟩⟩
  rintro p hp q hq rfl
  obtain ⟨⟨n, i⟩, hn, rfl⟩ := List.mem_map.mp hp
  obtain rfl : i = j := by simpa using hq
  obtain ⟨hmem, hne⟩ := List.mem_filter.mp hn
  have hj := position_ensures schema column i hj
  rw [List.mk_mem_zipIdx_iff_getElem?] at hmem hj
  have : n = column := Option.some.inj (hmem.symm.trans hj)
  simp [this] at hne

theorem withColumn_formed (column : String) (expression : Expr) :
    Ensures (withColumn counter column expression b) fun P ↦
      ∃ j, position (withName b.schema column) column = .ok j ∧
        Formed [] (sheetName .withColumn counter) (withName b.schema column)
          (computedCells (withName b.schema column) column j) P := by
  unfold withColumn
  generalize withName b.schema column = schema
  refine Ensures.bind (P := Forall₂ (Put (sheetName .withColumn counter))
    (under (fun x ↦ x.1 != column) schema)) ?_ fun copies hcopies ↦ .skip fun term ↦ ?_
  · simpa [bne] using puts_under (p := (· == column)) spread
  refine Ensures.bind (P := fun j ↦ position schema column = .ok j) (fun _ hj ↦ hj) fun j hj ↦ ?_
  have hputs : Forall₂ (Put (sheetName .withColumn counter)) (computedCells schema column j)
      (copies ++ [put (sheetName .withColumn counter) 1 j (spread term)]) :=
    List.rel_append hcopies (.cons ⟨_, rfl⟩ .nil)
  rw [List.append_assoc]
  exact (place_puts hputs).mono fun P h ↦ ⟨j, hj, h⟩

section Join

variable {s : Sides}

theorem leftColumns_puts :
    Ensures (leftColumns sheet s) (Forall₂ (Put sheet) (across 0 s.schema.length)) := by
  have hcopies : Forall₂ (Put sheet) (across 0 s.left.schema.length)
      (s.left.schema.zipIdx.map fun x ↦ put sheet 1 x.2 (spread (s.left.columnAt x.2))) := by
    refine puts_zipIdx (List.forall₂_map_right_iff.mpr (List.forall₂_same.mpr fun x _ ↦ ?_))
    exact ⟨spread (s.left.columnAt x.2), by simp [put]⟩
  unfold leftColumns
  refine .skip fun key ↦ .skip fun search ↦ ?_
  refine Ensures.bind (P := Forall₂ (Put sheet) (across s.left.schema.length s.carried.length)) ?_
    fun found hfound ↦ .ok ?_
  · exact puts_mapM fun x _ ↦ .skip fun t ↦ .ok ⟨_, rfl⟩
  · rw [Sides.schema, List.length_append, ← across_append, Nat.zero_add]
    exact List.rel_append hcopies hfound

theorem leftJoin_formed : Ensures (leftJoin counter s)
    (Formed [] (sheetName .join counter) s.schema (across 0 s.schema.length)) :=
  leftColumns_puts.bind fun _ hbody ↦ place_puts hbody

/-- The rows of a left join are filtered only by columns of the right side. -/
theorem innerJoin_formed : Ensures (innerJoin counter s) fun P ↦
    ∃ J, Formed [] (sheetName .join counter) s.schema (across 0 s.schema.length) J ∧
      Formed J.edits (sheetName .join counter ++ "_filtered") s.schema
        (if s.carried = [] then [] else [(1, 0)]) P := by
  refine leftJoin_formed.bind fun J hJ ↦ ?_
  refine (Ensures.mapM_forall₂ (R := fun _ _ ↦ True) fun _ _ _ _ ↦ trivial).bind
    fun checks hchecks ↦ ?_
  have hlength := hchecks.length_eq
  dsimp only
  rw [List.append_assoc, hJ.block]
  cases checks with
  | nil =>
    rw [if_pos (List.length_eq_zero_iff.mp hlength)]
    exact (place_formed _ .nil).mono fun P h ↦ ⟨J, hJ, h⟩
  | cons c cs =>
    rw [if_neg fun hnil ↦ by simp [hnil] at hlength]
    exact Ensures.mono (place_formed _ (.cons ⟨_, rfl⟩ .nil)) fun P h ↦ ⟨J, hJ, h⟩

theorem innerJoin_own : Ensures (innerJoin counter s) (Own .join counter) := by
  refine innerJoin_formed.mono fun P hP ↦ ?_
  obtain ⟨J, hJ, hP⟩ := hP
  obtain ⟨part, hedits, hname, htidy⟩ := hJ.exists_part (below_across _ _)
  rw [hedits, ← List.flatMap_singleton Part.edits] at hP
  refine hP.own ?_ (List.forall_mem_singleton.mpr htidy) (by simp [hname])
    (by simpa [hname] using belongs_self .join counter) ⟨"_filtered", by simp [endings], rfl⟩
  split
  · exact below_nil
  · exact below_single

theorem rightJoin_formed : Ensures (rightJoin counter s)
    (Formed [] (sheetName .join counter) s.schema (across 0 s.schema.length)) := by
  unfold rightJoin
  refine .skip fun key ↦ .skip fun search ↦ ?_
  refine (puts_first (sheetName .join counter) fun x _ ↦ ?_).bind fun found hfound ↦ ?_
  · exact .skip fun t ↦ .ok ⟨_, rfl⟩
  refine Ensures.bind (P := Forall₂ (Put (sheetName .join counter))
    (across s.left.schema.length s.carried.length)) ?_ fun copies hcopies ↦ ?_
  · exact puts_mapM fun x _ ↦ .skip fun t ↦ .ok ⟨_, rfl⟩
  rw [List.append_assoc, Sides.schema, List.length_append, ← across_append, Nat.zero_add]
  exact place_puts (List.rel_append hfound hcopies)

theorem antiColumns_puts : Ensures (antiColumns sheet s)
    (Forall₂ (Put sheet) (under (fun x ↦ !s.left.schema.contains x.1) s.schema)) := by
  exact .skip fun key ↦ .skip fun search ↦
    puts_under (.call "FILTER" [·, .call "ISNA" [.call "XMATCH" [key, search]]])

theorem outerJoin_formed : Ensures (outerJoin counter s) fun P ↦ ∃ J A,
    Formed [] (sheetName .join counter ++ "_left") s.schema (across 0 s.schema.length) J ∧
      Formed [] (sheetName .join counter ++ "_anti") s.schema
        (under (fun x ↦ !s.left.schema.contains x.1) s.schema) A ∧
      Formed (J.edits ++ A.edits) (sheetName .join counter) s.schema [(1, 0)] P := by
  unfold outerJoin
  dsimp only
  refine leftColumns_puts.bind fun first hfirst ↦ (place_puts hfirst).bind fun J hJ ↦ ?_
  refine antiColumns_puts.bind fun second hsecond ↦ (place_puts hsecond).bind fun A hA ↦ ?_
  rw [List.append_assoc (J.edits ++ A.edits)]
  exact Ensures.mono (place_formed _ (.cons ⟨_, rfl⟩ .nil)) fun P hP ↦ ⟨J, A, hJ, hA, hP⟩

theorem outerJoin_own : Ensures (outerJoin counter s) (Own .join counter) := by
  refine outerJoin_formed.mono fun P hP ↦ ?_
  obtain ⟨J, A, hJ, hA, hP⟩ := hP
  obtain ⟨j, hj, hjname, hjtidy⟩ := hJ.exists_part (below_across _ _)
  obtain ⟨a, ha, haname, hatidy⟩ := hA.exists_part (below_under _ _)
  have hparts : J.edits ++ A.edits = [j, a].flatMap Part.edits := by simp [hj, ha]
  rw [hparts] at hP
  refine hP.own below_single (by simpa using ⟨hjtidy, hatidy⟩) ?_ ?_ (belongs_self ..)
  · simp [hjname, haname]
  · simpa [hjname, haname] using belongs_outerJoin counter

theorem join_own (k : JoinKind) : Ensures (join counter k s) (Own .join counter) := by
  cases k with
  | left => exact leftJoin_formed.mono fun P h ↦ h.own_sole (below_across _ _)
  | inner => exact innerJoin_own
  | right => exact rightJoin_formed.mono fun P h ↦ h.own_sole (below_across _ _)
  | outer => exact outerJoin_own

end Join

theorem groupColumn_puts (keys : List String) (col : Nat) (a : Aggregation) :
    Ensures (groupColumn b sheet keys col a)
      (Forall₂ (Put sheet) ((List.range (groupRows - 1)).map fun i ↦ (i + 1, col))) := by
  unfold groupColumn
  refine (ensures_true _).bind fun func _ ↦ (ensures_true _).bind fun value _ ↦ ?_
  refine (Ensures.mapM_forall₂ (R := fun i e ↦ Put sheet (i + 1, col) e) fun i _ ↦ ?_).mono
    fun es hes ↦ List.forall₂_map_left_iff.mpr hes
  exact (ensures_true _).bind fun criteria _ ↦ .ok ⟨_, rfl⟩

theorem keyColumns_ensures (keys : List String) :
    Ensures (keyColumns b keys) fun _ ↦ keys ≠ [] := by
  rintro t ht rfl
  simp [keyColumns, consecutive] at ht

def groupCells (keys aggs : Nat) : List (Nat × Nat) :=
  (1, 0) :: (List.range aggs).flatMap fun j ↦
    (List.range (groupRows - 1)).map fun i ↦ (i + 1, keys + j)

theorem below_groupCells {keys aggs : Nat} (h : 0 < keys) : Below (groupCells keys aggs) := by
  refine ⟨List.nodup_cons.mpr ⟨?_, nodup_grid fun a b c d h ↦ ?_⟩,
    List.forall_mem_cons.mpr ⟨one_ne_zero, fun p hp ↦ ?_⟩⟩
  · simp only [List.mem_flatMap, List.mem_map, Prod.mk.injEq, not_exists, not_and]
    omega
  · simp only [Prod.mk.injEq] at h
    omega
  · obtain ⟨j, _, hp⟩ := List.mem_flatMap.mp hp
    obtain ⟨i, _, rfl⟩ := List.mem_map.mp hp
    exact Nat.succ_ne_zero i

theorem groupBy_formed (keys : List String) (aggs : List Aggregation) :
    Ensures (groupBy counter keys aggs b) fun P ↦ keys ≠ [] ∧
      Formed [] (sheetName .groupBy counter) (keys ++ aggs.map (·.output))
        (groupCells keys.length aggs.length) P := by
  unfold groupBy
  refine (keyColumns_ensures keys).bind fun unique hkeys ↦ ?_
  refine (Ensures.mapM_forall₂ (R := fun x es ↦ Forall₂ (Put (sheetName .groupBy counter))
    ((List.range (groupRows - 1)).map fun i ↦ (i + 1, keys.length + x.2)) es) fun x _ ↦
      groupColumn_puts _ _ _).bind fun columns hcolumns ↦ ?_
  have hputs := List.rel_flatten (List.forall₂_map_left_iff.mpr hcolumns)
  rw [← map_range_length (fun j ↦ (List.range (groupRows - 1)).map fun i ↦ (i + 1, keys.length + j)),
    ← List.flatMap_def] at hputs
  exact Ensures.mono (place_puts (.cons ⟨_, rfl⟩ hputs)) fun P h ↦ ⟨hkeys, h⟩

theorem aggregate_formed (aggs : List Aggregation) :
    Ensures (aggregate counter aggs b) (Formed [] (sheetName .aggregate counter)
      (aggs.map (·.output)) (across 0 aggs.length)) := by
  refine (puts_first (sheetName .aggregate counter) fun x _ ↦ ?_).bind fun _ h ↦ place_puts h
  exact .skip fun func ↦ .skip fun t ↦ .ok ⟨_, rfl⟩

theorem pivot_own (index : List String) (columns values : String) (aggfunc : Option String)
    (colCount rowCount : Option Nat) :
    Ensures (pivot counter index columns values aggfunc colCount rowCount b)
      (Own .pivot counter) := by
  unfold pivot
  dsimp only
  generalize hsheet : sheetName .pivot counter = sheet
  generalize hhelper : sheet ++ "_distinct" = helper
  generalize colCount.getD pivotCols = cols
  generalize rowCount.getD pivotRows = rows
  split
  · exact .error _
  · exact .error _
  next name =>
  refine (ensures_true _).bind fun i _ ↦ (ensures_true _).bind fun c _ ↦ ?_
  refine (ensures_true _).bind fun v _ ↦ (ensures_true _).bind fun _ _ ↦ ?_
  let line (i : Nat) := (List.range cols).map fun j ↦ (i + 1, j + 1)
  refine Ensures.bind (P := Forall₂ (fun i es ↦ Forall₂ (Put sheet) (line i) es) (List.range rows))
    ?_ fun cells hcells ↦ ?_
  · refine .mapM_forall₂ fun i _ ↦ ?_
    refine (Ensures.mapM_forall₂ (R := fun j e ↦ Put sheet (i + 1, j + 1) e) fun j _ ↦ ?_).mono
      fun es hes ↦ List.forall₂_map_left_iff.mpr hes
    exact (ensures_true _).bind fun t _ ↦ .ok ⟨_, rfl⟩
  refine (ensures_true _).bind fun range _ ↦ .ok ?_
  -- the row of column values stands beside the header, which is one cell wide
  have hclear : Clear sheet [name].length (put sheet 0 1 (headerRow helper cols) ::
      put sheet 1 0 (.call "UNIQUE" [i]) :: cells.flatten) := by
    refine ⟨(0, 1) :: (1, 0) :: (List.range rows).flatMap line, ?_, ?_, ?_⟩
    · rw [List.flatMap_def]
      refine .cons ⟨_, rfl⟩ (.cons ⟨_, rfl⟩ (List.rel_flatten ?_))
      exact List.forall₂_map_left_iff.mpr hcells
    · have hgrid : ((List.range rows).flatMap line).Nodup :=
        nodup_grid fun a b c d h ↦ by simpa using h
      simp [hgrid, line]
    · simp only [line, List.mem_cons, List.mem_flatMap, List.mem_map]
      rintro p (rfl | rfl | ⟨i, _, j, _, rfl⟩) hrow
      · exact le_rfl
      · cases hrow
      · cases hrow
  refine ⟨[⟨helper, .int 1, cols, [put helper 0 0 (.call "TRANSPOSE" [.call "SORT"
      [.call "UNIQUE" [c], .int 1, .text "TRUE"]])]⟩,
    ⟨sheet, .int (rows + 1), cols + 1,
      header sheet [name] :: put sheet 0 1 (headerRow helper cols) ::
        put sheet 1 0 (.call "UNIQUE" [i]) :: cells.flatten⟩],
    ⟨by simp [Part.edits], ?_, ?_⟩, ?_⟩
  · have hne : helper ≠ sheet := by simp [← hhelper]
    simpa using hne
  · refine List.forall_mem_cons.mpr ⟨⟨?_, ?_⟩, List.forall_mem_singleton.mpr hclear.tidy_cons⟩
    · simp [put, Edit.sheet, Edit.created, Edit.needs?]
    · exact List.pairwise_singleton _ _
  · have h1 : Belongs .pivot counter helper :=
      ⟨"_distinct", by simp [endings], by rw [hsheet, hhelper]⟩
    have h2 : Belongs .pivot counter sheet := hsheet ▸ belongs_self .pivot counter
    simpa using ⟨h1, h2⟩

theorem melt_formed (idVars : List String) (valueVars : Option (List String))
    (varName valueName : String) :
    Ensures (melt counter idVars valueVars varName valueName b) (Formed [] (sheetName .melt counter)
      (idVars ++ [varName, valueName]) (across 0 (idVars.length + 2))) := by
  unfold melt
  dsimp only
  generalize melted b.schema idVars valueVars = vars
  split
  · rw [Outcome.error_bind]
    exact .error _
  split
  · exact .error _
  next first rest =>
  refine .skip fun ref ↦ (puts_first (sheetName .melt counter) fun x _ ↦ ?_).bind fun ids hids ↦ ?_
  · exact .skip fun t ↦ .ok ⟨_, rfl⟩
  refine .skip fun refs ↦ ?_
  rw [List.append_assoc, ← across_append, Nat.zero_add]
  exact place_puts (List.rel_append hids (.cons ⟨_, rfl⟩ (.cons ⟨_, rfl⟩ .nil)))

def windowCells (cols rows : Nat) : List (Nat × Nat) :=
  across 0 cols ++ (List.range rows).map fun i ↦ (i + 1, cols)

theorem below_windowCells (cols rows : Nat) : Below (windowCells cols rows) := by
  have hcolumn : ((List.range rows).map fun i ↦ (i + 1, cols)).Nodup :=
    List.nodup_range.map fun i j h ↦ by simpa using h
  refine ⟨List.nodup_append.mpr ⟨nodup_across _ _, hcolumn, ?_⟩,
    List.forall_mem_append.mpr ⟨(below_across _ _).2, List.forall_mem_map.mpr fun i _ ↦ ?_⟩⟩
  · rintro p hp q hq rfl
    obtain ⟨i, _, rfl⟩ := List.mem_map.mp hq
    have := (mem_across.mp hp).2.2
    simp at this
  · exact Nat.succ_ne_zero i

theorem window_formed (func : String) (input : Option String) (output : String)
    (partitionBy : List String) (orderBy : List SortKey) (frame : Datum) :
    Ensures (window counter func input output partitionBy orderBy frame b) fun P ↦
      ∃ n, b.depth = .whole n ∧ Formed [] (sheetName .window counter) (b.schema ++ [output])
        (windowCells b.schema.length n) P := by
  let sheet := sheetName .window counter
  unfold window
  refine (puts_first sheet fun x _ ↦ ?_).bind fun copies hcopies ↦ .skip fun term ↦ ?_
  · exact .skip fun t ↦ .ok ⟨_, rfl⟩
  dsimp only
  split
  · next n hn =>
    refine (Ensures.mapM_forall₂ (R := fun i e ↦ Put sheet (i + 1, b.schema.length) e)
      fun i _ ↦ ?_).bind fun cells hcells ↦ ?_
    · exact .skip fun t ↦ .ok ⟨_, rfl⟩
    rw [List.append_assoc]
    exact (place_puts (List.rel_append hcopies (List.forall₂_map_left_iff.mpr hcells))).mono
      fun P h ↦ ⟨n, hn, h⟩
  · exact .error _

theorem window_own (func : String) (input : Option String) (output : String)
    (partitionBy : List String) (orderBy : List SortKey) (frame : Datum) :
    Ensures (window counter func input output partitionBy orderBy frame b)
      (Own .window counter) := by
  refine (window_formed func input output partitionBy orderBy frame).mono fun P h ↦ ?_
  obtain ⟨n, _, h⟩ := h
  exact h.own_sole (below_windowCells _ _)

theorem placeNode_own (sources : Sources) (op : Operator) (inputs : List Plan)
    (blocks : List Block) :
    Ensures (placeNode sources counter op inputs blocks) (Own op.kind counter) := by
  have hgroupBy : ∀ keys aggs b, Ensures (groupBy counter keys aggs b) (Own .groupBy counter) :=
    fun keys aggs b ↦ (groupBy_formed keys aggs).mono fun P h ↦
      h.2.own_sole (below_groupCells (List.length_pos_iff.mpr h.1))
  cases op with
  | source id schema data => exact source_own _ _
  | select columns predicate =>
    exact .skip fun b ↦ (select_formed _ _).mono fun P h ↦ h.own_sole below_single
  | filter predicate => exact .skip fun b ↦ (filter_formed _).mono fun P h ↦ h.own_sole below_single
  | join leftOn rightOn kind suffixes => exact .skip fun lr ↦ join_own _
  | groupBy keys aggs order cap => exact .skip fun b ↦ hgroupBy _ _ b
  | aggregate aggs =>
    exact .skip fun b ↦ (aggregate_formed _).mono fun P h ↦ h.own_sole (below_across _ _)
  | sort keys cap predicate =>
    exact .skip fun b ↦ (sort_formed _ _ _).mono fun P h ↦ h.own_sole below_single
  | limit count side =>
    exact .skip fun b ↦ (limit_formed _ _).mono fun P h ↦ h.own_sole below_single
  | withColumn column expression =>
    refine .skip fun b ↦ (withColumn_formed _ _).mono fun P h ↦ ?_
    obtain ⟨j, hj, h⟩ := h
    exact h.own_sole (below_computedCells hj)
  | union => exact .skip fun lr ↦ union_formed.mono fun P h ↦ h.own_sole below_single
  | pivot index columns values aggfunc =>
    exact .skip fun b ↦ .skip fun cols ↦ .skip fun rows ↦ pivot_own _ _ _ _ _ _
  | melt idVars valueVars varName valueName =>
    exact .skip fun b ↦ (melt_formed _ _ _ _).mono fun P h ↦ h.own_sole (below_across _ _)
  | window func input output partitionBy orderBy frame =>
    exact .skip fun b ↦ window_own _ _ _ _ _ _
  | bare => exact .error _
  | loose k ps =>
    change Ensures (placeLoose counter k ps blocks) (Own k counter)
    unfold placeLoose
    split
    · split
      · exact .skip fun b ↦ (limit_formed _ _).mono fun P h ↦ h.own_sole below_single
      · exact .error _
    · split
      · exact .skip fun b ↦ (sort_formed _ _ _).mono fun P h ↦ h.own_sole below_single
      · exact .error _
    · split
      · exact .skip fun b ↦ hgroupBy _ _ b
      · exact .error _
    · exact .error _

end Gridplan.Layout
