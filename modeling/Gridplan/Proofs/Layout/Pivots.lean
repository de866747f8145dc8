import Gridplan.Proofs.Datum.Distinct
import Gridplan.Proofs.Frame.Passing
import Gridplan.Proofs.Layout.Headings
import Gridplan.Proofs.Layout.Record

namespace Gridplan

open Layout
open Outcome (Ensures bind_eq_ok)

variable {sources : Sources} {frames : String → Option Frame} {name : String} {op : Operator}
  {m : Option Nat} {is : List Plan} {p : Plan} {f g : Frame}

variable {i : Plan}

/-- The operator with the data that a source has under its name. -/
def Operator.feed (frames : String → Option Frame) : Operator → Operator
  | .source id schema _ => .source id schema (frames id)
  | op => op

namespace Plan

mutual

def feed (frames : String → Option Frame) : Plan → Plan
  | .node m op is => .node m (op.feed frames) (feedList frames is)

def feedList (frames : String → Option Frame) : List Plan → List Plan
  | [] => []
  | p :: ps => feed frames p :: feedList frames ps

end

theorem feed_node :
    feed frames (.node m op is) = .node m (op.feed frames) (is.map (feed frames)) := by
  rw [feed, eq_map_of_cons (g := feedList frames) rfl fun _ _ ↦ rfl]

end Plan

/-- Whether a column has the cells of some rows at one place. These are not made of other data. -/
def Column.Reads (c : Column) (rows : List (List Datum)) (i : Nat) : Prop :=
  List.Forall₂ (fun row d ↦ ∃ x, row[i]? = some x ∧ x.isAtom = true ∧ x.isLike d = true) rows
    c.toList

/-- Whether a frame is the table of some rows under the names of a schema. -/
def Frame.Tabulates (f : Frame) (schema : List String) (rows : List (List Datum)) : Prop :=
  ∀ name i, schema.idxOf? name = some i → ∃ c, f.column? (.text name) = some c ∧ c.Reads rows i

def Plan.Tabulated (sources : Sources) (frames : String → Option Frame) : Plan → Prop :=
  All fun op _ ↦ ∀ id schema data, op = .source id schema data →
    ∃ rows, sources.lookup id = some (.list (rows.map .list)) ∧ rows ≠ [] ∧
      ∀ f, frames id = some f → f.Tabulates (schema.getD []) rows

/-- Whether an operator passes a column of its first input on, and no other cells under its name. -/
def Operator.Passes (frames : String → Option Frame) (name : String) : Operator → List Plan → Prop
  | .select names _, _ => name ∈ names
  | .filter _, _ | .sort _ _ _, _ | .limit _ _, _ => True
  | .withColumn column _, _ => column ≠ name
  | .window _ _ output _ _ _, _ => output ≠ name
  | .groupBy keys _ _ _, _ => name ∈ keys
  | .melt idVars _ _ _, _ => name ∈ idVars
  | .join leftOn rightOn kind _, [_, r] => (kind = .left ∨ kind = .inner) ∧
    ∀ g, (r.feed frames).run = .ok g → .text name ∈ g.labels → (name, name) ∈ leftOn.zip rightOn
  | _, _ => False

/-- Whether a column of a plan comes from the leftmost source as it is. -/
def Plan.Draws (frames : String → Option Frame) (name : String) : Plan → Prop
  | .node _ (.source _ schema _) _ => name ∈ schema.getD []
  | .node _ op is => op.Passes frames name is ∧ ofFirst is
where
  ofFirst : List Plan → Prop
    | [] => False
    | p :: _ => Plan.Draws frames name p

/-- Whether a column is the one with its name of the leftmost source. -/
structure Plan.Fetches (sources : Sources) (p : Plan) (name : String) (c : Column) : Prop where
  source : ∃ id schema rows i, leftmostSource p = some (id, schema) ∧
    schema.idxOf? name = some i ∧ sources.lookup id = some (.list (rows.map .list)) ∧
    rows ≠ [] ∧ c.Reads rows i

theorem Operator.Passes.run {fs : List Frame} {cells : List Datum}
    (h : op.Passes frames name (i :: is))
    (hfs : List.Forall₂ (fun i g ↦ (i.feed frames).run = .ok g) is fs) (hf : f.Draws name cells) :
    Ensures (op.run (f :: fs)) fun g ↦ g.Draws name cells := by
  cases hfs with
  | nil =>
    cases op with
    | select names => exact (hf.select h).bind fun g hg ↦ .ok hg
    | filter predicate => exact .skip fun q ↦ (hf.locate q).bind fun g hg ↦ .ok hg
    | sort keys => exact .bind (.skip fun rows ↦ .ok (hf.pick rows)) fun g hg ↦ .ok hg
    | limit count side => cases side <;> exact .ok (hf.pick _)
    | withColumn column expression =>
      cases expression with
      | raw d => exact .error _
      | _ => exact .skip fun q ↦ .skip fun c ↦ .ok (hf.setColumn h c)
    | window func input output => exact hf.window rfl h
    | groupBy keys => exact hf.groupBy h _ _
    | melt idVars => exact hf.melt h _ _ _
    | join => exact .error _
    | _ => exact h.elim
  | cons hr hrest =>
    cases op with
    | join leftOn rightOn kind suffixes =>
      cases hrest with
      | nil => exact hf.join h.1 suffixes (h.2 _ hr)
      | cons => exact .error _
    | withColumn column expression => cases expression <;> exact .error _
    | _ => first | exact .error _ | exact h.elim

namespace Plan

theorem draws_node (h : Draws frames name (.node m op is)) :
    (∃ id schema data, op = .source id schema data ∧ name ∈ schema.getD []) ∨
      ∃ i rest, is = i :: rest ∧ op.Passes frames name (i :: rest) ∧ i.Draws frames name ∧
        op.feed frames = op ∧ leftmostSource (.node m op is) = leftmostSource i := by
  cases op with
  | source id schema data => exact .inl ⟨id, schema, data, rfl, h⟩
  | _ =>
    obtain ⟨hpasses, hfirst⟩ := h
    cases is with
    | nil => exact hfirst.elim
    | cons i rest => exact .inr ⟨i, rest, rfl, hpasses, hfirst, rfl, rfl⟩

theorem Draws.run (h : p.Draws frames name) (hs : p.Tabulated sources frames)
    (hg : (p.feed frames).run = .ok g) : ∃ c, p.Fetches sources name c ∧ g.Draws name c.toList := by
  induction p generalizing g with
  | node m op is ih =>
    obtain ⟨hsource, hinputs⟩ := all_node.mp hs
    rw [feed_node] at hg
    rcases draws_node h with
      ⟨id, schema, data, rfl, hname⟩ | ⟨i, rest, rfl, hpasses, hi, hop, hleft⟩
    · obtain ⟨rows, hrows, hne, htable⟩ := hsource id schema data rfl
      cases hf : frames id with
      | none => simp [Operator.feed, hf, Plan.run] at hg
      | some f =>
        obtain rfl : f = g := by simpa [Operator.feed, hf, Plan.run] using hg
        obtain ⟨j, hj⟩ := Option.isSome_iff_exists.mp (List.isSome_idxOf?.mpr hname)
        obtain ⟨c, hc, hreads⟩ := htable f hf name j hj
        exact ⟨c, ⟨id, schema.getD [], rows, j, rfl, hj, hrows, hne, hreads⟩, c, hc,
          List.Subset.refl _⟩
    · rw [hop] at hg
      rcases run_node hg with ⟨id, schema, rfl⟩ | ⟨fs, hfs, -, hrun⟩
      · exact hpasses.elim
      · obtain ⟨f, fs, hf, hrest, rfl⟩ := List.forall₂_cons_left_iff.mp hfs
        obtain ⟨c, ⟨id, schema, rows, j, hsome, hfetch⟩, hdraws⟩ :=
          ih i (by simp) hi (hinputs i (by simp)) hf
        exact ⟨c, ⟨id, schema, rows, j, hleft.trans hsome, hfetch⟩,
          hpasses.run (List.forall₂_map_left_iff.mp hrest) hdraws g hrun⟩

end Plan

namespace Layout

open Formula

variable {columns values : String} {k : Option Nat} {func : Option String} {index : List String}
variable {j : Nat} {id : String}

theorem itemAt_list {row : List Datum} {x : Datum} (h : itemAt j (.list row) = .ok x) :
    row[j]? = some x := by
  obtain ⟨items, hitems, h⟩ := bind_eq_ok.mp h
  obtain rfl : row = items := Except.ok.inj hitems
  split at h
  · next hget => rw [hget, Except.ok.inj h]
  · cases h

theorem knownValues_cells {schema : List String} {rows : List (List Datum)}
    (hleft : leftmostSource i = some (id, schema)) (hj : schema.idxOf? name = some j)
    (hrows : sources.lookup id = some (.list (rows.map .list))) (hne : rows ≠ [])
    (hk : knownValues sources (some i) name = .ok k) :
    ∃ xs, List.Forall₂ (fun row x ↦ row[j]? = some x) rows xs ∧ k = some (distinctCount xs) := by
  have hdata : (Datum.list (rows.map .list)).truthy = true := by simpa [Datum.truthy] using hne
  rw [knownValues, Option.bind_some, hleft] at hk
  simp only [hrows, Option.getD_some, hdata, if_true, hj] at hk
  obtain ⟨items, hitems, hk⟩ := bind_eq_ok.mp hk
  obtain rfl : rows.map Datum.list = items := Except.ok.inj hitems
  obtain ⟨xs, hxs, hk⟩ := bind_eq_ok.mp hk
  have hitems : List.Forall₂ (fun d x ↦ itemAt j d = .ok x) (rows.map Datum.list) xs :=
    Ensures.mapM_forall₂ (fun _ _ _ h ↦ h) xs hxs
  refine ⟨xs, (List.forall₂_map_left_iff.mp hitems).imp fun row x hx ↦ itemAt_list hx, ?_⟩
  split at hk
  · exact (Except.ok.inj hk).symm
  · cases hk

theorem valueCount_le_knownValues {c d : Column} (hc : i.Fetches sources name c)
    (hk : knownValues sources (some i) name = .ok k) (hd : d.toList ⊆ c.toList) :
    ∃ n, k = some n ∧ d.valueCount ≤ n := by
  obtain ⟨id, schema, rows, j, hleft, hj, hrows, hne, hreads⟩ := hc
  obtain ⟨xs, hcells, rfl⟩ := knownValues_cells hleft hj hrows hne hk
  refine ⟨_, rfl, Column.valueCount_le ?_ ?_⟩
  · intro x hx
    obtain ⟨row, hrow, hrowx⟩ := exists_of_forall₂ hcells hx
    obtain ⟨d, hd, x', hx', hatom, -⟩ := exists_of_forall₂ hreads.flip hrow
    rwa [Option.some.inj (hrowx.symm.trans hx')]
  · intro e he
    obtain ⟨row, hrow, x', hx', -, hlike⟩ := exists_of_forall₂ hreads (hd he)
    obtain ⟨x, hx, hrowx⟩ := exists_of_forall₂ hcells.flip hrow
    rw [Option.some.inj (hx'.symm.trans hrowx)] at hlike
    exact ⟨x, hx, hlike⟩

theorem fits_of_draws (h : i.Draws frames name) (hs : i.Tabulated sources frames)
    (hg : (i.feed frames).run = .ok g) (hk : knownValues sources (some i) name = .ok k)
    (fallback : Nat) : ∃ c, g.column? (.text name) = some c ∧ c.valueCount ≤ k.getD fallback := by
  obtain ⟨c, hc, d, hd, hsub⟩ := h.run hs hg
  obtain ⟨n, rfl, hn⟩ := valueCount_le_knownValues hc hk hsub
  exact ⟨d, hd, hn⟩

theorem pivot_cells {counter : Nat} {colCount rowCount : Option Nat} {b : Block} :
    Ensures (pivot counter index columns values func colCount rowCount b) fun P ↦
      ∃ name, index = [name] ∧ ∀ r c : Nat,
        (∃ t needs, .formula P.block.sheet (r + 1) (c + 1) t needs ∈ P.edits) ↔
          r < rowCount.getD pivotRows ∧ c < colCount.getD pivotCols := by
  unfold pivot
  dsimp only
  generalize hsheet : sheetName .pivot counter = sheet
  generalize colCount.getD pivotCols = cols
  generalize rowCount.getD pivotRows = rows
  split
  · exact .error _
  · exact .error _
  next name =>
  refine .skip fun i ↦ .skip fun c ↦ .skip fun v ↦ .skip fun _ ↦ ?_
  refine Ensures.bind (P := fun cells ↦ List.Forall₂ (fun i es ↦ List.Forall₂ (fun j e ↦
    ∃ t, e = put sheet (i + 1) (j + 1) t) (List.range cols) es) (List.range rows) cells) ?_
    fun cells hcells ↦ .skip fun range ↦ .ok ⟨name, rfl, fun (r c : Nat) ↦ ?_⟩
  · exact .mapM_forall₂ fun i _ ↦ .mapM_forall₂ fun j _ ↦ .skip fun t ↦ .ok ⟨_, rfl⟩
  constructor
  · rintro ⟨t, needs, he⟩
    have he : Edit.formula sheet (r + 1) (c + 1) t needs ∈ cells.flatten := by
      have hr : (r : Int) + 1 ≠ 0 := by omega
      have hc : (c : Int) + 1 ≠ 0 := by omega
      simpa [put, header, hr, hc] using he
    obtain ⟨es, hes, he⟩ := List.mem_flatten.mp he
    obtain ⟨i, hi, hline⟩ := exists_of_forall₂ hcells hes
    obtain ⟨j, hj, u, hu⟩ := exists_of_forall₂ hline he
    obtain ⟨-, hr, hc, -⟩ := Edit.formula.inj hu
    obtain rfl : r = i := by omega
    obtain rfl : c = j := by omega
    exact ⟨List.mem_range.mp hi, List.mem_range.mp hj⟩
  · rintro ⟨hr, hc⟩
    obtain ⟨es, hes, hline⟩ := exists_of_forall₂ hcells.flip (List.mem_range.mpr hr)
    obtain ⟨e, he, t, rfl⟩ := exists_of_forall₂ hline.flip (List.mem_range.mpr hc)
    exact ⟨t, none, List.mem_append_right _ (List.mem_flatten.mpr ⟨es, hes, he⟩)⟩

variable {optimized : Bool} {s : Progress}

theorem layOut_pivot_cells {q : Plan} (hp : p.Built) (hc : p.Coherent)
    (h : layOut p sources optimized = .ok s) (hq : chosen p optimized = .ok q)
    (hop : q.op = .pivot index columns values func) :
    ∃ i name b rowCount colCount, q.inputs = [i] ∧ index = [name] ∧ s.blocks.getLast? = some b ∧
      knownValues sources (some i) name = .ok rowCount ∧
      knownValues sources (some i) columns = .ok colCount ∧
      ∀ r c : Nat, (∃ t needs, .formula b.sheet (r + 1) (c + 1) t needs ∈ s.edits) ↔
        r < rowCount.getD pivotRows ∧ c < colCount.getD pivotCols := by
  obtain ⟨q', hq', hblocks⟩ := laid_of_layOut hp hc h
  obtain rfl := Except.ok.inj (hq.symm.trans hq')
  obtain ⟨m, op, is⟩ := q
  obtain rfl : op = .pivot index columns values func := hop
  rw [Plan.finished, if_neg (by cases m <;> simp)] at hblocks
  obtain ⟨b, hb, -, k, P, rfl, ⟨bs, hbs, hP⟩, hedits⟩ := getLast?_of_forall₂ hblocks
  obtain ⟨bi, hbi, hP⟩ := bind_eq_ok.mp hP
  obtain ⟨colCount, hcols, hP⟩ := bind_eq_ok.mp hP
  obtain ⟨rowCount, hrows, hP⟩ := bind_eq_ok.mp hP
  obtain ⟨hone, -⟩ := only_ensures (Q := fun _ ↦ True) .pivot (fun _ _ ↦ trivial) bi hbi
  obtain ⟨i, -, his, -, -⟩ := eq_singleton_of_forall₂ hbs (by rw [hone]; rfl)
  obtain rfl : is = [i] := his
  obtain ⟨name, rfl, hcells⟩ := pivot_cells P hP
  refine ⟨i, name, P.block, rowCount, colCount, rfl, rfl, hb, hrows, hcols, fun r c ↦ ?_⟩
  rw [← hcells r c]
  exact exists_congr fun t ↦ exists_congr fun needs ↦ hedits _ rfl

/-- A pivot at the root of a plan whose sources all have rows has a formula for each of as many
index and column values as are counted in the leftmost source, or for a fixed number of them when
that source has no column of the name. No value is left out if its column comes from there as it
is. -/
theorem layOut_pivot_fits {index : List String} {columns values : String} {func : Option String}
    {q : Plan} (hp : p.Built) (hc : p.Coherent) (h : layOut p sources optimized = .ok s)
    (hq : chosen p optimized = .ok q) (hop : q.op = .pivot index columns values func)
    (hs : q.Tabulated sources frames) :
    ∃ i name b rowCount colCount, q.inputs = [i] ∧ index = [name] ∧ s.blocks.getLast? = some b ∧
      knownValues sources (some i) name = .ok rowCount ∧
      knownValues sources (some i) columns = .ok colCount ∧
      (∀ r c : Nat, (∃ t needs, .formula b.sheet (r + 1) (c + 1) t needs ∈ s.edits) ↔
        r < rowCount.getD pivotRows ∧ c < colCount.getD pivotCols) ∧
      ∀ g, (i.feed frames).run = .ok g →
        (i.Draws frames name → ∃ c, g.column? (.text name) = some c ∧
          c.valueCount ≤ rowCount.getD pivotRows) ∧
        (i.Draws frames columns → ∃ c, g.column? (.text columns) = some c ∧
          c.valueCount ≤ colCount.getD pivotCols) := by
  obtain ⟨i, name, b, rowCount, colCount, hi, hname, hb, hrows, hcols, hcells⟩ :=
    layOut_pivot_cells hp hc h hq hop
  have hinput : i.Tabulated sources frames := by
    obtain ⟨m, op, is⟩ := q
    obtain rfl : is = [i] := hi
    exact (Plan.all_node.mp hs).2 i (by simp)
  refine ⟨i, name, b, rowCount, colCount, hi, hname, hb, hrows, hcols, hcells, fun g hg ↦ ?_⟩
  exact ⟨fun hdraws ↦ fits_of_draws hdraws hinput hg hrows _,
    fun hdraws ↦ fits_of_draws hdraws hinput hg hcols _⟩

structure Sighting where
  place : Int
  bird : String
  count : Int

def sightingRows (xs : List Sighting) : List (List Datum) :=
  xs.map fun x ↦ [.int x.place, .text x.bird, .int x.count]

def sightingFrame (xs : List Sighting) : Frame where
  columns := [(.text "place", .ints (xs.map (·.place))),
    (.text "bird", .mixed (xs.map (.text ·.bird))), (.text "count", .ints (xs.map (·.count)))]
  index := Frame.numbered xs.length

def sighted (mark : Nat) (id : String) : Plan :=
  .node (some mark) (.source id (some ["place", "bird", "count"]) none) []

def birdCounts (mark : Nat) (i : Plan) : Plan :=
  .node (some mark) (.pivot ["place"] "bird" "count" (some "sum")) [i]

theorem reads_map {α : Type} {xs : List α} {row : α → List Datum} {cell : α → Datum} {c : Column}
    (hc : c.toList = xs.map cell) (hrow : ∀ x, (row x)[j]? = some (cell x))
    (hatom : ∀ x, (cell x).isAtom = true) : c.Reads (xs.map row) j := by
  rw [Column.Reads, hc, List.forall₂_map_left_iff, List.forall₂_map_right_iff, List.forall₂_same]
  exact fun x _ ↦ ⟨cell x, hrow x, hatom x, Datum.isLike_self (hatom x)⟩

theorem tabulates_sightingFrame (xs : List Sighting) :
    (sightingFrame xs).Tabulates ["place", "bird", "count"] (sightingRows xs) := by
  intro name j hj
  have hname : name ∈ ["place", "bird", "count"] :=
    List.isSome_idxOf?.mp (Option.isSome_iff_exists.mpr ⟨j, hj⟩)
  simp only [List.mem_cons, List.not_mem_nil, or_false] at hname
  rcases hname with rfl | rfl | rfl
  · obtain rfl : 0 = j := Option.some.inj hj
    exact ⟨_, rfl, reads_map List.map_map (fun _ ↦ rfl) fun _ ↦ rfl⟩
  · obtain rfl : 1 = j := Option.some.inj hj
    exact ⟨_, rfl, reads_map rfl (fun _ ↦ rfl) fun _ ↦ rfl⟩
  · obtain rfl : 2 = j := Option.some.inj hj
    exact ⟨_, rfl, reads_map List.map_map (fun _ ↦ rfl) fun _ ↦ rfl⟩

def sightings (xs ys : List Sighting) : Sources :=
  [("s", .list ((sightingRows xs).map .list)), ("t", .list ((sightingRows ys).map .list))]

def sightingFrames (xs ys : List Sighting) (id : String) : Option Frame :=
  if id = "s" then some (sightingFrame xs) else if id = "t" then some (sightingFrame ys) else none

theorem tabulated_sighted {xs ys : List Sighting} (hxs : xs ≠ []) (hys : ys ≠ []) {mark : Nat}
    (h : id = "s" ∨ id = "t") :
    (sighted mark id).Tabulated (sightings xs ys) (sightingFrames xs ys) := by
  refine Plan.all_node.mpr ⟨?_, fun q hq ↦ absurd hq List.not_mem_nil⟩
  intro id' schema data heq
  obtain ⟨rfl, rfl, rfl⟩ := Operator.source.inj heq
  rcases h with rfl | rfl
  · refine ⟨sightingRows xs, rfl, by simpa [sightingRows] using hxs, fun f hf ↦ ?_⟩
    obtain rfl := Option.some.inj hf
    exact tabulates_sightingFrame xs
  · refine ⟨sightingRows ys, rfl, by simpa [sightingRows] using hys, fun f hf ↦ ?_⟩
    obtain rfl := Option.some.inj hf
    exact tabulates_sightingFrame ys

theorem tabulated_node (hop : op.kind ≠ .source) :
    Plan.Tabulated sources frames (.node m op is) ↔ ∀ i ∈ is, i.Tabulated sources frames := by
  refine Plan.all_node.trans (and_iff_right ?_)
  rintro id schema data rfl
  exact absurd rfl hop

/-- The counts of the first two of three sightings have room for the three birds of the source. -/
theorem layOut_pivot_fits_head :
    let xs : List Sighting := [⟨1, "heron", 3⟩, ⟨2, "stork", 1⟩, ⟨1, "crane", 2⟩]
    let i : Plan := .node (some 1) (.limit 2 .head) [sighted 0 "s"]
    let p := birdCounts 2 i
    p.Built ∧ p.Coherent ∧ p.Tabulated (sightings xs xs) (sightingFrames xs xs) ∧
      i.Draws (sightingFrames xs xs) "bird" ∧
      ∃ s b g c, layOut p (sightings xs xs) false = .ok s ∧ s.blocks.getLast? = some b ∧
        (∀ r c : Nat, (∃ t needs, .formula b.sheet (r + 1) (c + 1) t needs ∈ s.edits) ↔
          r < 2 ∧ c < 3) ∧
        (i.feed (sightingFrames xs xs)).run = .ok g ∧ g.column? (.text "bird") = some c ∧
        c.valueCount ≤ 3 := by
  intro xs i p
  have hb : p.Built := by
    simp [p, i, birdCounts, sighted, Plan.built_node, Operator.isTyped, Operator.Accepts]
  have hc : p.Coherent := .of_nodup (by decide) (by decide +kernel)
  have hs : p.Tabulated (sightings xs xs) (sightingFrames xs xs) := by
    refine (tabulated_node (by decide)).mpr (List.forall_mem_singleton.mpr ?_)
    refine (tabulated_node (by decide)).mpr (List.forall_mem_singleton.mpr ?_)
    exact tabulated_sighted (by decide) (by decide) (.inl rfl)
  have hdraws : i.Draws (sightingFrames xs xs) "bird" :=
    ⟨trivial, List.mem_cons_of_mem _ List.mem_cons_self⟩
  obtain ⟨s, hlay⟩ := Outcome.succeeds_of_isOk (x := layOut p (sightings xs xs) false)
    (by decide)
  obtain ⟨g, hg⟩ := Outcome.succeeds_of_isOk (x := (i.feed (sightingFrames xs xs)).run)
    (by decide)
  obtain ⟨i', name, b, rowCount, colCount, hi, hname, hlast, hrows, hcols, hcells, hfits⟩ :=
    layOut_pivot_fits hb hc hlay rfl rfl hs
  obtain rfl : i = i' := List.singleton_inj.mp hi
  obtain rfl : "place" = name := List.singleton_inj.mp hname
  obtain rfl : some 2 = rowCount := Except.ok.inj hrows
  obtain rfl : some 3 = colCount := Except.ok.inj hcols
  obtain ⟨c, hcolumn, hcount⟩ := (hfits g hg).2 hdraws
  exact ⟨hb, hc, hs, hdraws, s, b, g, c, hlay, hlast, hcells, hg, hcolumn, hcount⟩

/-- The counts of the sightings of two sources have no room for the bird of the second. -/
theorem layOut_pivot_stacked :
    let xs : List Sighting := [⟨1, "heron", 3⟩]
    let ys : List Sighting := [⟨2, "stork", 4⟩]
    let i : Plan := .node (some 2) .union [sighted 0 "s", sighted 1 "t"]
    let p := birdCounts 3 i
    p.Built ∧ p.Coherent ∧ p.Tabulated (sightings xs ys) (sightingFrames xs ys) ∧
      ∃ s b g c, layOut p (sightings xs ys) false = .ok s ∧ s.blocks.getLast? = some b ∧
        (∀ r c : Nat, (∃ t needs, .formula b.sheet (r + 1) (c + 1) t needs ∈ s.edits) ↔
          r < 1 ∧ c < 1) ∧
        (i.feed (sightingFrames xs ys)).run = .ok g ∧ g.column? (.text "bird") = some c ∧
        c.valueCount = 2 := by
  intro xs ys i p
  have hb : p.Built := by
    simp [p, i, birdCounts, sighted, Plan.built_node, Operator.isTyped, Operator.Accepts,
      Plan.schema?]
  have hc : p.Coherent := .of_nodup (by decide) (by decide +kernel)
  have hs : p.Tabulated (sightings xs ys) (sightingFrames xs ys) := by
    refine (tabulated_node (by decide)).mpr (List.forall_mem_singleton.mpr ?_)
    refine (tabulated_node (by decide)).mpr (List.forall_mem_cons.mpr
      ⟨?_, List.forall_mem_singleton.mpr ?_⟩)
    · exact tabulated_sighted (by decide) (by decide) (.inl rfl)
    · exact tabulated_sighted (by decide) (by decide) (.inr rfl)
  obtain ⟨s, hlay⟩ := Outcome.succeeds_of_isOk (x := layOut p (sightings xs ys) false)
    (by decide)
  obtain ⟨g, hg, hcount⟩ := Outcome.exists_of_any (x := (i.feed (sightingFrames xs ys)).run)
    (P := fun g ↦ (g.column? (.text "bird")).map (·.valueCount) = some 2) (by decide)
  obtain ⟨c, hcolumn, hcount⟩ := Option.map_eq_some_iff.mp hcount
  obtain ⟨i', name, b, rowCount, colCount, hi, hname, hlast, hrows, hcols, hcells⟩ :=
    layOut_pivot_cells hb hc hlay rfl rfl
  obtain rfl : i = i' := List.singleton_inj.mp hi
  obtain rfl : "place" = name := List.singleton_inj.mp hname
  obtain rfl : some 1 = rowCount := Except.ok.inj hrows
  obtain rfl : some 1 = colCount := Except.ok.inj hcols
  exact ⟨hb, hc, hs, s, b, g, c, hlay, hlast, hcells, hg, hcolumn, hcount⟩

end Layout

end Gridplan
