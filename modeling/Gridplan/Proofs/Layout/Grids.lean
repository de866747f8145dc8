import Gridplan.Proofs.Layout.Order

namespace Gridplan

open Layout (Sources rowCount)

def Operator.isTabular (sources : Sources) : Operator → Bool
  | .source id schema _ => ((sources.lookup id).getD (.list [])).matrix.all fun xs ↦
    xs.length ≤ (schema.getD []).length
  | _ => true

theorem Datum.length_matrix (d : Datum) : d.matrix.length = rowCount d := by
  cases d <;> simp [matrix, items, rowCount, Except.toOption, String.length_toList]

theorem Edit.mem_cells_values {φ : Type} {sheet : String} {row col : Int} {d : Datum}
    {c : Int × Int} : c ∈ (Edit.values (φ := φ) sheet row col d).cells ↔
      ∃ (i j : Nat) (xs : List Datum),
        d.matrix[i]? = some xs ∧ j < xs.length ∧ c = (row + i, col + j) := by
  simp only [Edit.cells, Edit.writes, List.mem_map, List.mem_flatMap]
  constructor
  · rintro ⟨_, ⟨x, hx, y, hy, rfl⟩, rfl⟩
    refine ⟨x.2, y.2, x.1, List.mk_mem_zipIdx_iff_getElem?.mp hx, ?_, rfl⟩
    simpa using List.snd_lt_of_mem_zipIdx hy
  · rintro ⟨i, j, xs, hi, hj, rfl⟩
    refine ⟨_, ⟨(xs, i), List.mk_mem_zipIdx_iff_getElem?.mpr hi, (xs[j], j), ?_, rfl⟩, rfl⟩
    exact List.mk_mem_zipIdx_iff_getElem?.mpr (List.getElem?_eq_getElem hj)

namespace Layout

open Formula
open Outcome (Ensures)

variable {k counter rows last : Nat} {sheet : String} {schema : List String} {es fs : List Step}
  {e : Step} {good : Ref → Prop} {b : Block} {P : Placement} {sources : Sources} {s : Progress}

variable {cols : Nat} {body : List Step} {r : Ref}

/-- Whether a cell lies in the grid in which its sheet is created, or at most `k` rows or columns
outside. -/
def Room (k : Nat) (es : List Step) (sheet : String) (row col : Int) : Prop :=
  ∃ rows cols : Int, .create sheet (.int rows) cols ∈ es ∧ -k ≤ row ∧ row < rows + k ∧
    0 ≤ col ∧ col < cols + k

/-- Whether the corners of a reference on a sheet lie in their grid, or at most so far outside. -/
def Lies (k : Nat) (es : List Step) (sheet : String) (r : Ref) : Prop :=
  ∀ c ∈ r.corners, Room k es (r.sheet.getD sheet) (c.number - 1) c.col

/-- Whether the cells that an edit writes and the references that it makes lie in their grids. -/
structure Fitting (k : Nat) (es : List Step) (e : Step) : Prop where
  cells : ∀ c ∈ e.cells, Room k es e.sheet c.1 c.2
  refs : ∀ r ∈ refsOf e, Lies k es e.sheet r

/-- Whether all that is laid out lies in the grids of the sheets that are created, or at most `k`
rows or columns outside. -/
structure Fit (k : Nat) (s : Progress) : Prop where
  edits : ∀ e ∈ s.edits, Fitting k s.edits e
  blocks : ∀ b ∈ s.blocks, Room k s.edits b.sheet b.range.rowEnd b.range.colEnd

/-- Whether a block stands at the origin of a grid, with all its columns and with its last row or
only so many rows outside. -/
structure Seated (k : Nat) (es : List Step) (b : Block) : Prop where
  rooted : Rooted b
  grid : ∃ rows cols : Nat, .create b.sheet (.int rows) cols ∈ es ∧ 1 ≤ rows ∧
    b.range.rowEnd < rows + k ∧ b.schema.length ≤ cols ∧ b.range.colEnd < cols

theorem Room.mono {row col : Int} (h : Room k es sheet row col) (hsub : es ⊆ fs) :
    Room k fs sheet row col := by
  obtain ⟨rows, cols, hmem, hroom⟩ := h
  exact ⟨rows, cols, hsub hmem, hroom⟩

theorem Fitting.mono (h : Fitting k es e) (hsub : es ⊆ fs) : Fitting k fs e where
  cells := fun c hc ↦ (h.cells c hc).mono hsub
  refs := fun r hr c hc ↦ (h.refs r hr c hc).mono hsub

theorem Seated.mono (h : Seated k es b) (hsub : es ⊆ fs) : Seated k fs b where
  rooted := h.rooted
  grid := by
    obtain ⟨rows, cols, hmem, hgrid⟩ := h.grid
    exact ⟨rows, cols, hsub hmem, hgrid⟩

theorem Seated.room (h : Seated k es b) : Room k es b.sheet b.range.rowEnd b.range.colEnd := by
  obtain ⟨rows, cols, hmem, -, hrow, -, hcol⟩ := h.grid
  exact ⟨rows, cols, hmem, by omega, by omega, by omega, by omega⟩

theorem corner_of_mem_upTo {first c : Corner} {col n : Nat}
    (hr : r ∈ (b.upTo first col (.whole n)).refs) (hc : c ∈ r.corners) :
    c = first ∨ c = { col, number := n } := by
  obtain rfl : r = _ := by simpa [Block.upTo, Term.refs] using hr
  simpa [Ref.corners] using hc

theorem Seated.lies (h : Seated k es b) (hdeep : 1 ≤ b.range.rowEnd + k) (hr : Cites b r) :
    Lies k es sheet r := by
  obtain ⟨rows, cols, hmem, hrows, hlast, hschema, hcol⟩ := h.grid
  obtain ⟨hpart, hrow, horigin⟩ := h.rooted
  have hend : b.rowEnd = .whole b.range.rowEnd := by rw [Block.rowEnd, hpart]
  intro c hc
  rw [hr.sheet_eq, Option.getD_some]
  -- the corners are in the rows around the header and the last row, and in columns of the block
  suffices hcorner : c.col < cols ∧ 1 ≤ c.number + k ∧ c.number ≤ rows + k from
    ⟨rows, cols, hmem, by omega, by omega, by omega, by omega⟩
  rcases hr with hr | ⟨i, hi, hr⟩ | ⟨low, hlow, high, hhigh, hr⟩
  · rw [Block.body, hend, hrow, horigin] at hr
    simp only [Extent.most, Nat.zero_add] at hr
    split at hr
    · obtain rfl : r = _ := by simpa [Term.refs] using hr
      obtain rfl : c = _ := by simpa [Ref.corners] using hc
      dsimp only
      omega
    · rcases corner_of_mem_upTo hr hc with rfl | rfl <;> dsimp only <;> omega
  · rw [Block.columnAt, hend, hrow, horigin] at hr
    simp only [Extent.succ_whole, Nat.zero_add] at hr
    rcases corner_of_mem_upTo hr hc with rfl | rfl <;> dsimp only <;> omega
  · rw [keyRange, hend, hrow, horigin] at hr
    simp only [Nat.zero_add] at hr
    rcases corner_of_mem_upTo hr hc with rfl | rfl <;> dsimp only <;> omega

theorem Inner.lies (h : Inner sheet rows cols r) {m : Nat} (hmem : .create sheet (.int rows) m ∈ es)
    (hcols : cols ≤ m + k) : Lies k es sheet r := by
  intro c hc
  have := h.2 c hc
  rw [h.1]
  exact ⟨rows, m, hmem, by omega, by omega, by omega, by omega⟩

theorem fitting_create (name : String) (size : Number) (cols : Int) :
    Fitting k es (.create name size cols) where
  cells := by simp [Edit.cells, Edit.writes]
  refs := by simp [refsOf]

theorem fitting_values (row : Nat) {d : Datum} (hmem : .create sheet (.int rows) cols ∈ es)
    (hrows : row + d.matrix.length ≤ rows) (hcols : ∀ xs ∈ d.matrix, xs.length ≤ cols) :
    Fitting k es (.values sheet row 0 d) where
  cells := by
    intro c hc
    obtain ⟨i, j, xs, hi, hj, rfl⟩ := Edit.mem_cells_values.mp hc
    obtain ⟨hlt, hxs⟩ := List.getElem?_eq_some_iff.mp hi
    have := hcols xs (hxs ▸ List.getElem_mem hlt)
    exact ⟨rows, cols, hmem, by dsimp only; omega, by dsimp only; omega, by dsimp only; omega,
      by dsimp only; omega⟩
  refs := by simp [refsOf]

theorem fitting_header (hmem : .create sheet (.int rows) cols ∈ es) (hrows : 1 ≤ rows)
    (hcols : schema.length ≤ cols) : Fitting k es (header sheet schema) := by
  have hmatrix : (Datum.list [Datum.ofTexts schema]).matrix = [schema.map .text] := rfl
  refine fitting_values 0 hmem ?_ ?_ <;> rw [hmatrix]
  · simpa using hrows
  · simpa using hcols

theorem Drawn.fitting {cols m : Nat} (h : Drawn good sheet rows cols e)
    (hmem : .create sheet (.int rows) m ∈ es) (hcols : cols ≤ m + k) (hrows : 1 < rows + k)
    (hgood : ∀ r, good r → Lies k es sheet r) : Fitting k es e := by
  obtain ⟨row, col, t, rfl, hrow, hcol, ht⟩ := h
  constructor
  · intro c hc
    rw [cells_put, List.mem_singleton] at hc
    subst hc
    exact ⟨rows, m, hmem, by dsimp only; omega, by dsimp only; omega, by dsimp only; omega,
      by dsimp only; omega⟩
  · intro r hr
    rcases ht r hr with h | h
    · exact hgood r h
    · exact h.lies hmem hcols

theorem opened_fitting (hbody : ∀ e ∈ body, Drawn good sheet rows schema.length e)
    (hsub : (Part.opened sheet rows schema body).edits ⊆ es) (hpos : 1 ≤ rows)
    (hrows : 1 < rows + k) (hgood : ∀ r, good r → Lies k es sheet r) :
    ∀ e ∈ (Part.opened sheet rows schema body).edits, Fitting k es e := by
  have hmem := hsub (@Part.create_mem_opened body rows sheet schema)
  refine List.forall_mem_cons.mpr ⟨fitting_create .., List.forall_mem_cons.mpr ⟨?_, fun e he ↦ ?_⟩⟩
  · exact fitting_header hmem hpos le_rfl
  · exact (hbody e he).fitting hmem (by omega) hrows hgood

theorem Occupies.seated (h : Occupies b sheet schema last)
    (hmem : .create sheet (.int rows) schema.length ∈ es) (hpos : 1 ≤ rows)
    (hlast : last < rows + k) : Seated k es b where
  rooted := h.rooted
  grid := by
    have hwidth := h.width
    have hrow := h.last
    have hschema := h.schema
    subst hschema
    refine ⟨rows, b.schema.length, ?_, hpos, ?_, le_rfl, ?_⟩
    · rw [h.sheet]
      exact hmem
    · omega
    · omega

def Sits (k : Nat) (es : List Step) (P : Placement) : Prop :=
  (∀ e ∈ P.edits, Fitting k es e) ∧ Seated k es P.block

theorem Ends.created {before : List Part} (h : Ends before good sheet rows last schema P) :
    .create P.block.sheet (.int rows) schema.length ∈ P.edits := by
  obtain ⟨body, hedits, -⟩ := h.edits
  rw [hedits, h.block.sheet]
  simp [opening, Extent.toNumber]

theorem Ends.sits {before : List Part} (h : Ends before good sheet rows last schema P)
    (hsub : P.edits ⊆ es) (hbefore : ∀ p ∈ before, ∀ e ∈ p.edits, Fitting k es e)
    (hgood : ∀ r, good r → Lies k es sheet r) (hpos : 1 ≤ rows) (hrows : 1 < rows + k)
    (hlast : last < rows + k) : Sits k es P := by
  have hcreated := hsub h.created
  rw [h.block.sheet] at hcreated
  obtain ⟨body, hedits, hbody⟩ := h.edits
  rw [← Part.edits_opened] at hedits
  refine ⟨?_, h.block.seated hcreated hpos hlast⟩
  rw [hedits] at hsub ⊢
  refine List.forall_mem_append.mpr ⟨fun e he ↦ ?_, ?_⟩
  · obtain ⟨p, hp, he⟩ := List.mem_flatMap.mp he
    exact hbefore p hp e he
  · exact opened_fitting hbody (List.append_subset.mp hsub).2 hpos hrows hgood

theorem Ends.sits_over (h : Ends [] (Cites b) sheet rows last schema P) (hb : Seated k fs b)
    (hdeep : 1 ≤ b.range.rowEnd + k) (hpos : 1 ≤ rows) (hrows : 1 < rows + k)
    (hlast : last < rows + k) (hold : fs ⊆ es) (hnew : P.edits ⊆ es) : Sits k es P :=
  h.sits hnew (by simp) (fun _ hr ↦ (hb.mono hold).lies hdeep hr) hpos hrows hlast

theorem source_sits {schema : Option (List String)} {data : Datum}
    (hwidth : ∀ xs ∈ data.matrix, xs.length ≤ (schema.getD []).length) :
    Ensures (source counter schema data) fun P ↦ ∀ es, P.edits ⊆ es → Sits k es P := by
  refine (source_drawn schema data).mono fun P ⟨hedits, hblock⟩ es hsub ↦ ?_
  have hmem : .create (sheetName .source counter) (.int (rowCount data + 1 : Nat))
      (schema.getD []).length ∈ es := hsub (by simp [hedits, opening, Extent.toNumber])
  refine ⟨?_, hblock.seated hmem (by omega) (by omega)⟩
  rw [hedits]
  refine List.forall_mem_append.mpr ⟨List.forall_mem_cons.mpr ⟨fitting_create .., ?_⟩, ?_⟩
  · exact List.forall_mem_singleton.mpr (fitting_header hmem (by omega) le_rfl)
  · refine List.forall_mem_singleton.mpr (fitting_values 1 hmem ?_ hwidth)
    rw [Datum.length_matrix]
    omega

section Join

variable {d : Sides}

theorem Sides.lies (hl : Seated 1 es d.left) (hr : Seated 1 es d.right) (r : Ref)
    (h : d.Cites r) : Lies 1 es sheet r :=
  h.elim (fun h ↦ hl.lies (by omega) h) fun h ↦ hr.lies (by omega) h

theorem Sides.opened_sits (hl : Seated 1 es d.left) (hr : Seated 1 es d.right)
    (hb : Occupies b sheet d.schema rows) (hpos : 1 ≤ rows)
    (hbody : ∀ e ∈ body, Drawn d.Cites sheet rows d.schema.length e)
    (hsub : (Part.opened sheet rows d.schema body).edits ⊆ es) :
    (∀ e ∈ (Part.opened sheet rows d.schema body).edits, Fitting 1 es e) ∧ Seated 1 es b :=
  ⟨opened_fitting hbody hsub hpos (by omega) (Sides.lies hl hr),
    hb.seated (hsub Part.create_mem_opened) hpos (by omega)⟩

theorem join_sits (hl : Seated 1 fs d.left) (hr : Seated 1 fs d.right) (kind : JoinKind) :
    Ensures (join counter kind d) fun P ↦ ∀ es, fs ⊆ es → P.edits ⊆ es → Sits 1 es P := by
  cases kind with
  | left =>
    refine (leftJoin_drawn hl.rooted).mono fun P h es hold hnew ↦ ?_
    exact h.sits hnew (by simp) (Sides.lies (hl.mono hold) (hr.mono hold)) (by omega) (by omega)
      (by omega)
  | right =>
    refine (rightJoin_drawn hr.rooted).mono fun P h es hold hnew ↦ ?_
    exact h.sits hnew (by simp) (Sides.lies (hl.mono hold) (hr.mono hold)) (by omega) (by omega)
      (by omega)
  | inner =>
    refine (innerJoin_drawn hl.rooted).mono fun P h es hold hnew ↦ ?_
    obtain ⟨J, first, hJ, hfirst, hends⟩ := h
    obtain ⟨body, hedits, -⟩ := hends.edits
    obtain ⟨hfitting, hseat⟩ := Sides.opened_sits (hl.mono hold) (hr.mono hold) hJ (by omega) hfirst
      fun e he ↦ hnew (by simp [hedits, he])
    exact hends.sits hnew (List.forall_mem_singleton.mpr hfitting)
      (fun _ hr ↦ hseat.lies (by omega) hr) (by omega) (by omega) (by omega)
  | outer =>
    refine (outerJoin_drawn hl.rooted hr.rooted).mono fun P h es hold hnew ↦ ?_
    obtain ⟨J, A, first, second, hJ, hA, hfirst, hsecond, hends⟩ := h
    obtain ⟨body, hedits, -⟩ := hends.edits
    obtain ⟨hfittingJ, hseatJ⟩ := Sides.opened_sits (hl.mono hold) (hr.mono hold) hJ (by omega)
      hfirst fun e he ↦ hnew (by simp [hedits, he])
    obtain ⟨hfittingA, hseatA⟩ := Sides.opened_sits (hl.mono hold) (hr.mono hold) hA (by omega)
      hsecond fun e he ↦ hnew (by simp [hedits, he])
    refine hends.sits hnew (List.forall_mem_cons.mpr ⟨hfittingJ,
      List.forall_mem_singleton.mpr hfittingA⟩) ?_ (by omega) (by omega) (by omega)
    rintro r (hr | hr)
    · exact hseatJ.lies (by omega) hr
    · exact hseatA.lies (by omega) hr

end Join

theorem pivot_sits (hb : Seated 1 fs b) (index : List String) (columns values : String)
    (aggfunc : Option String) (colCount rowCount : Option Nat) :
    Ensures (pivot counter index columns values aggfunc colCount rowCount b) fun P ↦
      ∀ es, fs ⊆ es → P.edits ⊆ es → Sits 1 es P := by
  refine (pivot_drawn index columns values aggfunc colCount rowCount).mono
    fun P h es hold hnew ↦ ?_
  obtain ⟨name, t, body, rows, cols, hedits, ht, hbody, hsheet, hschema, hrooted, hlast, hcol⟩ := h
  have hhelper : .create (sheetName .pivot counter ++ "_distinct") (.int (1 : Nat)) cols ∈ es :=
    hnew (by simp [hedits, Part.edits])
  have hmain : .create (sheetName .pivot counter) (.int (rows + 1 : Nat)) (cols + 1 : Nat) ∈ es :=
    hnew (by simp [hedits, Part.edits])
  have hcites : ∀ {sheet} r, Cites b r → Lies 1 es sheet r :=
    fun r hr ↦ (hb.mono hold).lies (by omega) hr
  refine ⟨?_, hrooted, rows + 1, cols + 1, hsheet ▸ hmain, by omega, by omega, ?_, by omega⟩
  · rw [hedits]
    simp only [List.flatMap_cons, List.flatMap_nil, List.append_nil, Part.edits]
    refine List.forall_mem_append.mpr ⟨?_, ?_⟩
    · refine List.forall_mem_cons.mpr ⟨fitting_create .., List.forall_mem_singleton.mpr ?_⟩
      have hput : Drawn (Cites b) (sheetName .pivot counter ++ "_distinct") 1 (cols + 1)
          (put (sheetName .pivot counter ++ "_distinct") 0 0 t) :=
        drawn_put (.inr (by omega)) (by omega) (ht.mono fun _ ↦ .inl)
      exact hput.fitting hhelper (by omega) (by omega) hcites
    · refine List.forall_mem_cons.mpr ⟨fitting_create .., List.forall_mem_cons.mpr ⟨?_, ?_⟩⟩
      · exact fitting_header hmain (by omega) (by simp)
      · intro e he
        refine (hbody e he).fitting hmain (by omega) (by omega) ?_
        rintro r (hr | hr)
        · exact hcites r hr
        · -- the header of the pivot goes on for one column more than its helper has
          intro c hc
          have := hr.2 c hc
          rw [hr.1, Option.getD_some]
          exact ⟨1, cols, hhelper, by omega, by omega, by omega, by omega⟩
  · simp [hschema]

theorem placeNode_sits {op : Operator} (ht : op.isTyped = true) (htab : op.isTabular sources = true)
    (is : List Plan) {blocks : List Block} (hblocks : ∀ b ∈ blocks, Seated 1 fs b) :
    Ensures (placeNode sources counter op is blocks) fun P ↦
      ∀ es, fs ⊆ es → P.edits ⊆ es → Sits 1 es P := by
  refine (placeNode_shaped sources ht is fun b hb ↦ (hblocks b hb).rooted).mono fun P hP ↦ ?_
  cases hP with
  | @source id schema _ _ h =>
    have hwidth : ∀ xs ∈ ((sources.lookup id).getD (.list [])).matrix,
        xs.length ≤ (schema.getD []).length := by simpa [Operator.isTabular] using htab
    exact fun es _ ↦ source_sits hwidth P h es
  | join hbs h =>
    subst hbs
    exact join_sits (hblocks _ (by simp)) (hblocks _ (by simp)) _ P h
  | pivot hbs h =>
    subst hbs
    exact pivot_sits (hblocks _ (by simp)) _ _ _ _ _ _ P h
  | sole _ hrows hlast _ _ hends =>
    intro es hold hnew
    refine hends.sits hnew (by simp) (fun r hr ↦ ?_) hrows (by omega) (by omega)
    obtain ⟨b, hb, hr⟩ := hr
    exact ((hblocks b hb).mono hold).lies (by omega) hr

theorem Fit.add {m : Option Nat} (h : Fit k s) (hP : Sits k (s.add m P).edits P) :
    Fit k (s.add m P) := by
  have hold : s.edits ⊆ (s.add m P).edits := List.subset_append_left ..
  refine ⟨?_, ?_⟩
  · exact List.forall_mem_append.mpr ⟨fun e he ↦ (h.edits e he).mono hold, hP.1⟩
  · exact List.forall_mem_append.mpr
      ⟨fun b hb ↦ (h.blocks b hb).mono hold, List.forall_mem_singleton.mpr hP.2.room⟩

structure Near (s : Progress) : Prop where
  edits : ∀ e ∈ s.edits, Fitting 1 s.edits e
  blocks : ∀ b ∈ s.blocks, Seated 1 s.edits b
  shared : ∀ x ∈ s.shared, Seated 1 s.edits x.2

theorem near_nil : Near {} where
  edits := by simp
  blocks := by simp
  shared := by simp

theorem Near.fit (h : Near s) : Fit 1 s where
  edits := h.edits
  blocks := fun b hb ↦ (h.blocks b hb).room

theorem Near.add (h : Near s) {m : Option Nat} (hP : Sits 1 (s.add m P).edits P) :
    Near (s.add m P) := by
  have hold : s.edits ⊆ (s.add m P).edits := List.subset_append_left ..
  refine ⟨(h.fit.add hP).edits, ?_, ?_⟩
  · exact List.forall_mem_append.mpr
      ⟨fun b hb ↦ (h.blocks b hb).mono hold, List.forall_mem_singleton.mpr hP.2⟩
  · have hshared : ∀ x ∈ s.shared, Seated 1 (s.add m P).edits x.2 :=
      fun x hx ↦ (h.shared x hx).mono hold
    cases m with
    | none => exact hshared
    | some j => exact List.forall_mem_cons.mpr ⟨hP.2, hshared⟩

theorem kept_near {root : Plan} (hroot : root.Built)
    (htab : root.All fun op _ ↦ op.isTabular sources = true) :
    Kept sources root (fun s _ ↦ Near s) fun s _ b ↦ Seated 1 s.edits b where
  known := fun h x hx _ _ _ ↦ h.shared x hx
  old := fun _ _ hb ↦ hb.mono (List.subset_append_left ..)
  step := by
    intro s nodes m op is bs P hp h hbs hP
    obtain ⟨⟨ht, -⟩, -⟩ := Plan.built_node.mp (Plan.all_of_mem hroot hp)
    have hop := (Plan.all_node.mp (Plan.all_of_mem htab hp)).1
    have hsits := placeNode_sits ht hop is (forall_mem_of_forall₂ hbs) P hP (s.add m P).edits
      (List.subset_append_left ..) (List.subset_append_right ..)
    exact ⟨h.add hsits, hsits.2⟩

end Layout

end Gridplan
