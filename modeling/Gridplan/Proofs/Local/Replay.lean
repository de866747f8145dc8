import Gridplan.Local.Replay
import Gridplan.Proofs.Service.Updates

namespace Gridplan.Local

open List (Forall₂)
open Service (writesOf)

def Event.sets (sheet : String) : Event → Bool
  | .setValue s _ _ _ => s == sheet
  | .setFormula s _ _ _ => s == sheet
  | _ => false

/-- Whether an event writes a cell of a sheet with a given content: a value as a literal, and a
formula with its arrays stacked. -/
inductive Mirrors (sheet : String) : (Int × Int) × Content String → Event → Prop
  | value {row col : Int} {d : Datum} {content : Literal} (h : Literal.ofDatum d = .ok content) :
    Mirrors sheet ((row, col), .value d) (.setValue sheet (row + 1) (col + 1) content)
  | formula {row col : Int} {body : String} :
    Mirrors sheet ((row, col), .formula body)
      (.setFormula sheet (row + 1) (col + 1) (stackArrays body))

/-- Whether a trace ends without a fault and writes just these cells of a sheet. -/
structure Copies (sheet : String) (x : Trace) (cells : List ((Int × Int) × Content String)) :
    Prop where
  ends : x.2 = none
  events : Forall₂ (Mirrors sheet) cells (x.1.filter (Event.sets sheet))

variable {sheet : String} {x y : Trace} {cs ds : List ((Int × Int) × Content String)} {α : Type}

theorem Copies.nil : Copies sheet ([], none) [] := ⟨rfl, .nil⟩

theorem Copies.append (hx : Copies sheet x cs) (hy : Copies sheet y ds) :
    Copies sheet (x.append y) (cs ++ ds) := by
  rw [Trace.append, hx.ends]
  refine ⟨hy.ends, ?_⟩
  rw [List.filter_append]
  exact List.rel_append hx.events hy.events

theorem Copies.traceAll {f : α → Trace} {g : α → List ((Int × Int) × Content String)} {xs : List α}
    (h : ∀ x ∈ xs, Copies sheet (f x) (g x)) : Copies sheet (traceAll f xs) (xs.flatMap g) := by
  induction xs with
  | nil => exact .nil
  | cons x xs ih =>
    obtain ⟨hx, hxs⟩ := List.forall_mem_cons.mp h
    exact hx.append (ih hxs)

theorem mem_traceAll {f : α → Trace} {xs : List α} {e : Event} (h : e ∈ (traceAll f xs).1) :
    ∃ x ∈ xs, e ∈ (f x).1 := by
  induction xs with
  | nil => exact absurd h List.not_mem_nil
  | cons x xs ih =>
    rw [traceAll, Trace.append] at h
    split at h
    · exact ⟨x, List.mem_cons_self .., h⟩
    · rcases List.mem_append.mp h with h | h
      · exact ⟨x, List.mem_cons_self .., h⟩
      · obtain ⟨y, hy, he⟩ := ih h
        exact ⟨y, List.mem_cons_of_mem _ hy, he⟩

theorem mem_traceOf {o : Outcome α} {f : α → Trace} {e : Event} (h : e ∈ (traceOf o f).1) :
    ∃ a, e ∈ (f a).1 := by
  cases o with
  | error => exact absurd h List.not_mem_nil
  | ok a => exact ⟨a, h⟩

theorem sets_of_mem_editTrace {e : Edit String} {v : Event} (h : v ∈ (editTrace e).1)
    (hv : v.sets sheet = true) : e.sheet = sheet := by
  cases e with
  | create =>
    rw [List.mem_singleton.mp h] at hv
    cases hv
  | values s row col d =>
    rw [editTrace, setValues] at h
    split at h
    · obtain ⟨rows, h⟩ := mem_traceOf h
      obtain ⟨_, _, h⟩ := mem_traceAll h
      obtain ⟨xs, h⟩ := mem_traceOf h
      obtain ⟨_, _, h⟩ := mem_traceAll h
      obtain ⟨content, h⟩ := mem_traceOf h
      rw [List.mem_singleton.mp h] at hv
      exact beq_iff_eq.mp hv
    · exact absurd h List.not_mem_nil
  | formula =>
    rw [List.mem_singleton.mp h] at hv
    exact beq_iff_eq.mp hv
  | named => exact absurd h List.not_mem_nil

/-- Whether the values of an edit can be kept as literals. -/
def Storable : Edit String → Prop
  | .values _ _ _ d => ∀ xs ∈ d.matrix, ∀ x ∈ xs, Outcome.Succeeds (Literal.ofDatum x)
  | _ => True

theorem copies_values {d : Datum} (hd : d.IsMatrix) {row col : Int}
    (hstore : Storable (.values sheet row col d)) :
    Copies sheet (setValues sheet row col d)
      (Edit.values sheet row col d : Edit String).writes := by
  obtain ⟨rows, width, hrows, _, hwidth⟩ := hd
  have hmatrix := Datum.matrix_of_sequence? hrows
  rw [setValues, Datum.truthy_of_sequence? hrows, Datum.items_of_sequence? hrows]
  by_cases hne : rows = []
  · rw [Edit.writes, hmatrix, hne]
    exact .nil
  · rw [if_pos (by simp [hne]), Edit.writes, hmatrix, List.zipIdx_map, List.flatMap_map]
    refine Copies.traceAll fun x hx ↦ ?_
    obtain ⟨r, i⟩ := x
    obtain ⟨xs, hxs, _⟩ := hwidth r (List.fst_mem_of_mem_zipIdx hx)
    have hr : r.items = .ok xs := Datum.items_of_sequence? hxs
    have hmem : xs ∈ d.matrix := by
      rw [hmatrix]
      exact List.mem_map.mpr ⟨r, List.fst_mem_of_mem_zipIdx hx, by simp [hr, Except.toOption]⟩
    simp only [hr, traceOf, Prod.map, Except.toOption, Option.getD_some, List.map_eq_flatMap]
    refine Copies.traceAll fun y hy ↦ ?_
    obtain ⟨content, hcontent⟩ := hstore xs hmem y.1 (List.fst_mem_of_mem_zipIdx hy)
    simp only [hcontent]
    refine ⟨rfl, ?_⟩
    simpa [Event.sets] using Mirrors.value hcontent

theorem copies_editTrace {e : Edit String} (he : e.Placed) (hstore : Storable e) :
    Copies e.sheet (editTrace e) (writesOf e) := by
  cases e with
  | create => exact ⟨rfl, .nil⟩
  | named => exact .nil
  | values s row col d => exact copies_values he.2.2 hstore
  | formula s row col body needs =>
    refine ⟨rfl, ?_⟩
    simpa [editTrace, Event.sets, writesOf, Edit.map, Edit.writes, Edit.sheet] using Mirrors.formula

theorem copies_edits {es : List (Edit String)} (hplaced : ∀ e ∈ es, e.Placed)
    (hstore : ∀ e ∈ es, Storable e) (sheet : String) :
    Copies sheet (traceAll editTrace es) ((es.filter (·.sheet == sheet)).flatMap writesOf) := by
  have hfilter : (es.filter (·.sheet == sheet)).flatMap writesOf =
      es.flatMap fun e ↦ if e.sheet = sheet then writesOf e else [] := by
    clear hplaced hstore
    induction es with
    | nil => rfl
    | cons e es ih =>
      by_cases hsheet : e.sheet = sheet <;> simp [hsheet, ih]
  rw [hfilter]
  refine Copies.traceAll fun e he ↦ ?_
  have hcopies := copies_editTrace (hplaced e he) (hstore e he)
  split
  · rename_i hsheet
    exact hsheet ▸ hcopies
  · rename_i hsheet
    have hnone : (editTrace e).1.filter (Event.sets sheet) = [] :=
      List.filter_eq_nil_iff.mpr fun v hv hsets ↦ hsheet (sets_of_mem_editTrace hv hsets)
    exact ⟨hcopies.ends, hnone ▸ .nil⟩

theorem sets_evaluations (known : List (String × Number × Int)) (sheet : String) :
    (evaluations known).1.filter (Event.sets sheet) = [] := by
  refine List.filter_eq_nil_iff.mpr fun v hv hsets ↦ ?_
  obtain ⟨k, _, hv⟩ := mem_traceAll hv
  obtain ⟨name, rows, cols⟩ := k
  cases rows with
  | float => exact absurd hv List.not_mem_nil
  | int rows =>
    dsimp only at hv
    split at hv
    · exact absurd hv List.not_mem_nil
    · rw [List.mem_singleton.mp hv] at hsets
      cases hsets

theorem mirrors_replay {s : Schedule String} (hplaced : ∀ e ∈ s.edits, e.Placed)
    (hstore : ∀ e ∈ s.edits, Storable e) (sheet : String) :
    Forall₂ (Mirrors sheet) ((s.edits.filter (·.sheet == sheet)).flatMap writesOf)
      ((replay s).1.filter (Event.sets sheet)) := by
  obtain ⟨hends, hevents⟩ := copies_edits hplaced hstore sheet
  rw [replay, Trace.append, hends]
  dsimp only
  rw [List.filter_append, sets_evaluations, List.append_nil]
  exact hevents

variable {es : List (Edit String)} {main : Option String} {s : Schedule String}

theorem flatMap_writesOf_edits (h : Schedule.ofEdits es main = .ok s) (sheet : String) :
    (s.edits.filter (·.sheet == sheet)).flatMap writesOf =
      ((Schedule.ofStage .values s.edits).filter (·.sheet == sheet)).flatMap writesOf ++
        ((Schedule.ofStage .formulas s.edits).filter (·.sheet == sheet)).flatMap writesOf := by
  have hnone : ∀ stage : Stage, stage = .create ∨ stage = .names →
      ((Schedule.ofStage stage es).filter (·.sheet == sheet)).flatMap writesOf = [] := by
    intro stage hstage
    refine List.flatMap_eq_nil_iff.mpr fun e he ↦ ?_
    have he := (Schedule.mem_ofStage.mp (List.mem_of_mem_filter he)).2
    cases e with
    | create | named => rfl
    | values | formula =>
      rw [← he] at hstage
      rcases hstage with hstage | hstage <;> cases hstage
  rw [Schedule.ofStage_edits h, Schedule.ofStage_edits h, Schedule.edits_ofEdits h]
  simp [hnone]

/-- A schedule that fits, with matrices of values that can be kept as literals, is carried out by a
service that does not fail, and each sheet gets the same cells in the same order as in memory. The
service is sent at most one call for the values of a sheet and one for its formulas. -/
theorem replay_mirrors (h : Schedule.ofEdits es main = .ok s) (hplaced : ∀ e ∈ s.edits, e.Placed)
    (hstore : ∀ e ∈ s.edits, Storable e) (hsize : Service.checkSize s = .ok ()) {r : Service.Retry}
    (hr : 0 ≤ r.extra) (title : String) (delay : Float) (rows cols : Int) :
    ∃ log, Service.execute r (fun _ _ ↦ false) s title delay rows cols = (log, none) ∧
      ∀ sheet,
        (∃ cells, Service.cells? (log.filterMap (Service.Entry.sent? sheet)) = some cells ∧
          Forall₂ (Mirrors sheet) cells ((replay s).1.filter (Event.sets sheet))) ∧
        ∀ raw, ((log.filterMap (Service.Entry.sent? sheet)).filter (·.1 == raw)).length ≤ 1 := by
  have hvalues : ∀ e ∈ es, Outcome.Succeeds (Service.valueUpdate e) := by
    intro e he
    cases e with
    | values =>
      have hmem := Schedule.mem_edits_of_values h he rfl
      exact (Service.values_update rfl (hplaced _ hmem)).1
    | _ => exact ⟨none, rfl⟩
  obtain ⟨log, hrun, hsent⟩ := Service.execute_calm h hvalues hsize hr title delay rows cols
  refine ⟨log, hrun, fun sheet ↦ ?_⟩
  have hv : Service.cells? (Service.Writing.values.calls (Schedule.ofStage .values s.edits) sheet) =
      some (((Schedule.ofStage .values s.edits).filter (·.sheet == sheet)).flatMap writesOf) := by
    refine Service.cells?_calls (fun e he ↦ ?_) sheet
    obtain ⟨he, hstage⟩ := Schedule.mem_ofStage.mp he
    exact (Service.values_update hstage (hplaced e he)).2
  have hf : Service.cells?
      (Service.Writing.formulas.calls (Schedule.ofStage .formulas s.edits) sheet) =
      some (((Schedule.ofStage .formulas s.edits).filter (·.sheet == sheet)).flatMap writesOf) := by
    refine Service.cells?_calls (fun e he ↦ ?_) sheet
    obtain ⟨he, hstage⟩ := Schedule.mem_ofStage.mp he
    exact Service.formula_update hstage (hplaced e he)
  rw [hsent sheet]
  refine ⟨⟨_, Service.cells?_append hv hf, ?_⟩, fun raw ↦ ?_⟩
  · rw [← flatMap_writesOf_edits h]
    exact mirrors_replay hplaced hstore sheet
  · -- one of the two calls keeps values as they are, the other does not
    have hvalues := Service.Writing.values.length_calls (Schedule.ofStage .values s.edits) sheet raw
    have hformulas :=
      Service.Writing.formulas.length_calls (Schedule.ofStage .formulas s.edits) sheet raw
    have hraw : (if Service.Writing.values.raw = raw then 1 else 0) +
        (if Service.Writing.formulas.raw = raw then 1 else 0) = 1 := by
      cases raw <;> rfl
    rw [List.filter_append, List.length_append]
    exact (Nat.add_le_add hvalues hformulas).trans hraw.le

def small : List (Edit String) :=
  [.create "S" (.int 3) 2,
    .values "S" 0 0 (.list [.list [.text "a", .text "b"], .list [.text "c", .text "d"]]),
    .formula "S" 2 1 "{A1; A2}" none]

def large : List (Edit String) :=
  [.create "S" (.int 4000) 4000, .values "S" 0 0 (.list [.list [.text "x"]])]

def scheduled (es : List (Edit String)) : Schedule String :=
  ⟨Stage.all.filterMap (Schedule.batch? · es), none⟩

theorem replay_mirrors_small :
    ((replay (scheduled small)).1.filter (Event.sets "S")).length = 5 ∧
      ∃ log, Service.execute ⟨5, 1⟩ (fun _ _ ↦ false) (scheduled small) "T" 0.5 1000 26 =
          (log, none) ∧
        ∀ sheet,
          (∃ cells, Service.cells? (log.filterMap (Service.Entry.sent? sheet)) = some cells ∧
            Forall₂ (Mirrors sheet) cells
              ((replay (scheduled small)).1.filter (Event.sets sheet))) ∧
          ∀ raw, ((log.filterMap (Service.Entry.sent? sheet)).filter (·.1 == raw)).length ≤ 1 := by
  have hschedule : Schedule.ofEdits small none = .ok (scheduled small) := rfl
  have hedits : (scheduled small).edits = small := rfl
  have hplaced : ∀ e ∈ (scheduled small).edits, e.Placed := by
    refine List.forall_mem_cons.mpr ⟨trivial, List.forall_mem_cons.mpr ⟨?_, ?_⟩⟩
    · exact ⟨le_rfl, le_rfl, _, 2, rfl, by decide, by simp [Datum.sequence?]⟩
    · exact List.forall_mem_singleton.mpr ⟨by decide, by decide⟩
  have hstore : ∀ e ∈ (scheduled small).edits, Storable e := by
    rw [hedits]
    simp [small, Storable, Datum.matrix, Datum.items, Except.toOption, Literal.ofDatum]
  exact ⟨rfl, replay_mirrors hschedule hplaced hstore rfl (by decide) "T" 0.5 1000 26⟩

/-- A service is sent nothing of a schedule that does not fit, and memory holds it all the same. -/
theorem replay_large :
    Schedule.ofEdits large none = .ok (scheduled large) ∧
      (∀ e ∈ (scheduled large).edits, e.Placed) ∧
      ¬∃ cells, Service.cells? ((Service.execute ⟨5, 1⟩ (fun _ _ ↦ false) (scheduled large) "T" 0.5
          1000 26).1.filterMap (Service.Entry.sent? "S")) = some cells ∧
        Forall₂ (Mirrors "S") cells ((replay (scheduled large)).1.filter (Event.sets "S")) := by
  refine ⟨rfl, ?_, ?_⟩
  · refine List.forall_mem_cons.mpr ⟨trivial, List.forall_mem_singleton.mpr ?_⟩
    exact ⟨le_rfl, le_rfl, _, 1, rfl, by decide, by simp [Datum.sequence?]⟩
  · rintro ⟨cells, hcells, hmirrors⟩
    have hsent : (Service.execute ⟨5, 1⟩ (fun _ _ ↦ false) (scheduled large) "T" 0.5 1000 26).1 =
        [] := rfl
    have hlength : ((replay (scheduled large)).1.filter (Event.sets "S")).length = 1 := rfl
    rw [hsent] at hcells
    obtain rfl := Option.some.inj hcells
    rw [← hmirrors.length_eq] at hlength
    cases hlength

end Gridplan.Local
