import Gridplan.Layout.Basic
import Gridplan.Proofs.Formula.Sheets

namespace Gridplan

def Edit.created {φ : Type} : Edit φ → Option String
  | .create name _ _ => some name
  | _ => none

def Edit.creates {φ : Type} (name : String) : Edit φ → Bool
  | .create n _ _ => n = name
  | _ => false

/-- Whether an edit writes values into the first row of the sheet. -/
def Edit.heads {φ : Type} (name : String) : Edit φ → Bool
  | .values sheet row _ _ => sheet = name ∧ row = 0
  | _ => false

namespace Layout

open Formula

def refsOf : Step → List Ref
  | .formula _ _ _ t _ => t.refs
  | _ => []

/-- Whether the sheets that an edit changes and reads are there. A formula can always read its own
sheet. -/
def Fits (names : List String) : Step → Prop
  | .create _ _ _ => True
  | .values sheet _ _ _ => sheet ∈ names
  | .formula sheet _ _ t _ => sheet ∈ names ∧ t.Within (sheet :: names)
  | .named _ sheet _ _ _ _ => sheet ∈ names

/-- Whether each edit changes and reads only sheets that edits before it have created. -/
def Scoped (edits : List Step) : Prop :=
  ∀ before e after, edits = before ++ e :: after → Fits (before.filterMap Edit.created) e

/-- Whether a block is a sheet's first columns, with one edit that creates the sheet in its width
and one that writes its header. -/
structure Headed (edits : List Step) (b : Block) : Prop where
  created : ∃ rows : Int, 1 ≤ rows ∧ 1 ≤ b.schema.length ∧
    edits.filter (Edit.creates b.sheet) = [.create b.sheet (.int rows) b.schema.length]
  header : edits.filter (Edit.heads b.sheet) =
    [.values b.sheet 0 0 (.list [Datum.ofTexts b.schema])]
  origin : b.range.row = 0 ∧ b.range.col = 0
  width : b.range.colEnd = b.schema.length - 1

structure Part where
  name : String
  rows : Number
  cols : Int
  body : List Step

namespace Part

def edits (p : Part) : List Step := .create p.name p.rows p.cols :: p.body

def Fills (name : String) (names : List String) : Step → Prop
  | .values sheet _ _ _ => sheet = name
  | .formula sheet _ _ t _ => sheet = name ∧ t.Within names
  | _ => False

/-- Whether the sheet is created in the width of a schema, with the schema as its header. -/
structure Titled (p : Part) (schema : List String) : Prop where
  rows : ∃ n : Nat, p.rows = .int (n + 1)
  cols : p.cols = schema.length
  body : ∃ rest, p.body = header p.name schema :: rest ∧ ∀ e ∈ rest, e.heads p.name = false

end Part

/-- Whether each part fills its sheet and reads only this sheet, known sheets and earlier ones. -/
def Chained (known : List String) : List Part → Prop
  | [] => True
  | p :: ps => (∀ e ∈ p.body, Part.Fills p.name (p.name :: known) e) ∧ Chained (p.name :: known) ps

variable {name : String} {names known others : List String} {e : Step} {es : List Step}
  {p : Part} {ps qs : List Part}

theorem Part.Fills.sheet_eq (h : Part.Fills name names e) : e.sheet = name := by
  cases e with
  | values => exact h
  | formula => exact h.1
  | create | named => exact h.elim

theorem Part.Fills.created_eq (h : Part.Fills name names e) : e.created = none := by
  cases e with
  | create => exact h.elim
  | _ => rfl

theorem Part.Fills.mono (h : Part.Fills name names e) (hsub : names ⊆ others) :
    Part.Fills name others e := by
  cases e with
  | values => exact h
  | formula => exact ⟨h.1, h.2.mono hsub⟩
  | create | named => exact h.elim

theorem Part.Fills.fits (h : Part.Fills name names e) (hname : name ∈ others)
    (hsub : names ⊆ others) : Fits others e := by
  cases e with
  | values => exact (h : _ = name) ▸ hname
  | formula =>
    obtain ⟨rfl, ht⟩ := h
    exact ⟨hname, ht.mono fun n hn ↦ List.mem_cons_of_mem _ (hsub hn)⟩
  | create | named => exact h.elim

@[simp] theorem fills_put {row col : Nat} {t : Term} :
    Part.Fills name names (put name row col t) ↔ t.Within names := by
  simp [put, Part.Fills]

theorem Chained.mono (h : Chained known ps) (hsub : known ⊆ others) : Chained others ps := by
  induction ps generalizing known others with
  | nil => trivial
  | cons p ps ih =>
    have hcons : p.name :: known ⊆ p.name :: others := List.cons_subset_cons _ hsub
    exact ⟨fun e he ↦ (h.1 e he).mono hcons, ih h.2 hcons⟩

theorem Chained.append (h : Chained known ps) (hq : Chained (ps.map Part.name ++ known) qs) :
    Chained known (ps ++ qs) := by
  induction ps generalizing known with
  | nil => exact hq
  | cons p ps ih =>
    refine ⟨h.1, ih h.2 (hq.mono fun n hn ↦ ?_)⟩
    simpa [or_left_comm] using hn

/-- The same as `Scoped`, edit by edit, with sheets that are there from the beginning. -/
def ScopedFrom (names : List String) : List Step → Prop
  | [] => True
  | e :: es => Fits names e ∧ ScopedFrom (e.created.toList ++ names) es

theorem ScopedFrom.at {before after : List Step}
    (h : ScopedFrom names (before ++ e :: after)) :
    ∃ others, (∀ n, n ∈ others ↔ n ∈ before.filterMap Edit.created ∨ n ∈ names) ∧
      Fits others e := by
  induction before generalizing names with
  | nil => exact ⟨names, by simp, h.1⟩
  | cons d before ih =>
    obtain ⟨others, hothers, hfits⟩ := ih h.2
    refine ⟨others, fun n ↦ ?_, hfits⟩
    rw [hothers, List.filterMap_cons]
    cases hd : d.created with
    | none => simp
    | some k => simp [or_left_comm, or_assoc]

theorem Fits.congr (h : Fits names e) (hsame : ∀ n, n ∈ names ↔ n ∈ others) : Fits others e := by
  cases e with
  | create => trivial
  | values | named => exact (hsame _).mp h
  | formula =>
    exact ⟨(hsame _).mp h.1, h.2.mono (List.cons_subset_cons _ fun n ↦ (hsame n).mp)⟩

theorem ScopedFrom.scoped (h : ScopedFrom [] es) : Scoped es := by
  intro before e after hes
  subst hes
  obtain ⟨others, hothers, hfits⟩ := h.at
  exact hfits.congr (by simpa using hothers)

theorem scopedFrom_body {rest : List Step}
    (h : ∀ e ∈ es, Part.Fills name names e) (hname : name ∈ others) (hsub : names ⊆ others)
    (hrest : ScopedFrom others rest) : ScopedFrom others (es ++ rest) := by
  induction es with
  | nil => exact hrest
  | cons e es ih =>
    obtain ⟨he, hes⟩ := List.forall_mem_cons.mp h
    refine ⟨he.fits hname hsub, ?_⟩
    rw [he.created_eq]
    exact ih hes

theorem Chained.scopedFrom (h : Chained known ps) (hsub : known ⊆ names) :
    ScopedFrom names (ps.flatMap Part.edits) := by
  induction ps generalizing known names with
  | nil => trivial
  | cons p ps ih =>
    have hcons : p.name :: known ⊆ p.name :: names := List.cons_subset_cons _ hsub
    rw [List.flatMap_cons, Part.edits, List.cons_append]
    refine ⟨trivial, scopedFrom_body h.1 ?_ hcons (ih h.2 hcons)⟩
    simp [Edit.created]

theorem Chained.scoped (h : Chained [] ps) : Scoped (ps.flatMap Part.edits) :=
  (h.scopedFrom (List.Subset.refl _)).scoped

theorem sheet_of_mem_edits (h : Chained known ps) (hp : p ∈ ps) (he : e ∈ p.edits) :
    e.sheet = p.name := by
  induction ps generalizing known with
  | nil => cases hp
  | cons q ps ih =>
    rcases List.mem_cons.mp hp with rfl | hp
    · rcases List.mem_cons.mp he with rfl | he
      · rfl
      · exact (h.1 e he).sheet_eq
    · exact ih h.2 hp

theorem filter_edits {f : Step → Bool} (h : Chained known ps) (hn : (ps.map Part.name).Nodup)
    (hp : p ∈ ps) (hf : ∀ e, f e = true → e.sheet = p.name) :
    (ps.flatMap Part.edits).filter f = p.edits.filter f := by
  have hother : ∀ qs ⊆ ps, (∀ q ∈ qs, q.name ≠ p.name) →
      (qs.flatMap Part.edits).filter f = [] := by
    intro qs hqs hne
    refine List.filter_eq_nil_iff.mpr fun e he hfe ↦ ?_
    obtain ⟨q, hq, he⟩ := List.mem_flatMap.mp he
    exact hne q hq ((sheet_of_mem_edits h (hqs hq) he).symm.trans (hf e hfe))
  obtain ⟨before, after, rfl⟩ := List.append_of_mem hp
  simp only [List.map_append, List.map_cons, List.nodup_append, List.nodup_cons] at hn
  have hb := hother before (by simp) fun q hq hqp ↦
    hn.2.2 _ (List.mem_map_of_mem hq) _ (by simp) hqp
  have ha := hother after (by intro q hq; simp [hq]) fun q hq hqp ↦
    hn.2.1.1 (List.mem_map.mpr ⟨q, hq, hqp⟩)
  rw [List.flatMap_append, List.flatMap_cons, List.filter_append, List.filter_append, hb, ha,
    List.nil_append, List.append_nil]

theorem Chained.fills (h : Chained known ps) (hp : p ∈ ps) :
    ∀ e ∈ p.body, ∃ names, Part.Fills p.name names e := by
  induction ps generalizing known with
  | nil => cases hp
  | cons q ps ih =>
    rcases List.mem_cons.mp hp with rfl | hp
    · exact fun e he ↦ ⟨_, h.1 e he⟩
    · exact ih h.2 hp

theorem headed_of_titled {b : Block} (h : Chained known ps) (hn : (ps.map Part.name).Nodup)
    (hp : p ∈ ps) (hname : p.name = b.sheet) (ht : p.Titled b.schema)
    (horigin : b.range.row = 0 ∧ b.range.col = 0)
    (hwidth : b.range.colEnd + 1 = b.schema.length) : Headed (ps.flatMap Part.edits) b := by
  obtain ⟨n, hrows⟩ := ht.rows
  obtain ⟨rest, hbody, hrest⟩ := ht.body
  have hcreates : ∀ e : Step, e.creates p.name = true → e.sheet = p.name := by
    rintro (_ | _ | _ | _) he <;> simp_all [Edit.creates, Edit.sheet]
  have hheads : ∀ e : Step, e.heads p.name = true → e.sheet = p.name := by
    rintro (_ | _ | _ | _) he <;> simp_all [Edit.heads, Edit.sheet]
  refine ⟨⟨n + 1, by omega, by omega, ?_⟩, ?_, horigin, by omega⟩ <;> rw [← hname]
  · have hnone : p.body.filter (Edit.creates p.name) = [] := by
      refine List.filter_eq_nil_iff.mpr fun e he hc ↦ ?_
      obtain ⟨names, hfills⟩ := h.fills hp e he
      cases e with
      | create => exact hfills.elim
      | _ => cases hc
    rw [filter_edits h hn hp hcreates, Part.edits, List.filter_cons_of_pos (by simp [Edit.creates]),
      hnone, hrows, ht.cols]
  · have hnone : rest.filter (Edit.heads p.name) = [] :=
      List.filter_eq_nil_iff.mpr fun e he ↦ by simp [hrest e he]
    rw [filter_edits h hn hp hheads, Part.edits, List.filter_cons_of_neg (by simp [Edit.heads]),
      hbody, List.filter_cons_of_pos (by simp [header, Edit.heads]), hnone]
    rfl

end Layout

end Gridplan
