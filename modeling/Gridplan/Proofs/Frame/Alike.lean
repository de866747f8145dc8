import Gridplan.Plan.Run
import Gridplan.Proofs.Outcome

namespace Gridplan.Frame

structure Alike (f g : Frame) : Prop where
  columns : f.columns = g.columns
  height : f.height = g.height

namespace Alike

variable {f g h : Frame}

theorem refl (f : Frame) : f.Alike f := ⟨rfl, rfl⟩

theorem trans (hfg : f.Alike g) (hgh : g.Alike h) : f.Alike h :=
  ⟨hfg.columns.trans hgh.columns, hfg.height.trans hgh.height⟩

theorem rows (hfg : f.Alike g) : f.rows = g.rows := by
  rw [Frame.rows, Frame.rows, hfg.columns, hfg.height]

theorem labels (hfg : f.Alike g) : f.labels = g.labels := by
  rw [Frame.labels, Frame.labels, hfg.columns]

theorem column (hfg : f.Alike g) : f.column = g.column := by
  funext l
  rw [Frame.column, Frame.column, hfg.columns]

theorem renumber (f : Frame) : f.renumber.Alike f where
  columns := rfl
  height := by rw [Frame.height, Frame.renumber, numbered, List.length_map, List.length_range]

theorem renumbered (hfg : f.Alike g) : f.renumber.Alike g := (renumber f).trans hfg

theorem length_filterMap_getElem? {α : Type} {xs ys : List α} (hlen : xs.length = ys.length)
    (is : List Nat) : (is.filterMap (xs[·]?)).length = (is.filterMap (ys[·]?)).length := by
  rw [List.length_filterMap_eq_countP, List.length_filterMap_eq_countP]
  exact List.countP_congr fun i _ ↦ by simp [hlen]

theorem pick (hfg : f.Alike g) (rows : List Nat) : (f.pick rows).Alike (g.pick rows) where
  columns := by simp [Frame.pick, hfg.columns]
  height := length_filterMap_getElem? hfg.height rows

theorem keep (hfg : f.Alike g) (mask : List Bool) : (f.keep mask).Alike (g.keep mask) :=
  hfg.pick _

theorem head (hfg : f.Alike g) (n : Nat) : (f.head n).Alike (g.head n) := by
  rw [Frame.head, Frame.head, hfg.height]
  exact hfg.pick _

theorem tail (hfg : f.Alike g) (n : Nat) : (f.tail n).Alike (g.tail n) := by
  rw [Frame.tail, Frame.tail, hfg.height]
  exact hfg.pick _

theorem select (hfg : f.Alike g) {ls : List Label} {k : Frame} (hk : g.select ls = .ok k) :
    ∃ k', f.select ls = .ok k' ∧ k'.Alike k := by
  obtain ⟨columns, hcolumns, h⟩ := Outcome.bind_eq_ok.mp hk
  obtain rfl := Except.ok.inj h
  refine ⟨⟨columns.flatten, f.index⟩, ?_, rfl, hfg.height⟩
  rw [Frame.select, hfg.columns, hcolumns]
  rfl

theorem sortedRows (hfg : f.Alike g) (keys : List (Label × Direction)) :
    f.sortedRows keys = g.sortedRows keys := by
  simp only [Frame.sortedRows, hfg.column, hfg.height]

theorem sortBy (hfg : f.Alike g) {keys : List (Label × Direction)} {k : Frame}
    (hk : g.sortBy keys = .ok k) : ∃ k', f.sortBy keys = .ok k' ∧ k'.Alike k := by
  obtain ⟨rows, hrows, h⟩ := Outcome.bind_eq_ok.mp hk
  obtain rfl := Except.ok.inj h
  refine ⟨f.pick rows, ?_, hfg.pick rows⟩
  rw [Frame.sortBy, hfg.sortedRows, hrows]
  rfl

theorem groupBy (hfg : f.Alike g) (keys : List Label) (sort : Bool)
    (outputs : List (Label × Label × String)) :
    f.groupBy keys sort outputs = g.groupBy keys sort outputs := by
  simp only [Frame.groupBy, groups, keyColumns, hfg.column, hfg.height]

theorem join {l r : Frame} (hfl : f.Alike l) (hgr : g.Alike r) (leftOn rightOn : List Label)
    (kind : JoinKind) (suffixes : Option String × Option String) :
    Frame.join leftOn rightOn kind suffixes f g = Frame.join leftOn rightOn kind suffixes l r := by
  have hfound : ∀ k, g.column? k = r.column? k := by
    intro k
    rw [column?, column?, hgr.columns]
  simp only [Frame.join, hfl.column, hgr.column, hfl.height, hgr.height, hfl.columns, hgr.columns,
    hfl.labels, hfound]

end Alike

theorem alike_iff {f g : Frame} : f.Alike g ↔ f.columns = g.columns ∧ f.rows = g.rows := by
  constructor
  · intro h
    exact ⟨h.columns, h.rows⟩
  · intro h
    have hlen := congrArg List.length h.2
    simp only [rows, List.length_map, List.length_range] at hlen
    exact ⟨h.1, hlen⟩

end Gridplan.Frame
