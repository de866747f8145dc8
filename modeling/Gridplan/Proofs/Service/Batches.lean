import Gridplan.Service.Run
import Gridplan.Proofs.Workbook.Schedule

namespace Gridplan

open Schedule (batch? ofStage)

namespace Service

abbrev Sent := Bool × List Update

def Call.sent? (sheet : String) : Call → Option Sent
  | .batch title updates raw => if title = sheet then some (raw, updates) else none
  | _ => none

def Action.sent? (sheet : String) : Action → Option Sent
  | .request _ c => c.sent? sheet
  | _ => none

def Entry.sent? (sheet : String) : Entry → Option Sent
  | .call c _ => c.sent? sheet
  | .sleep _ => none

/-- Whether a script is carried out to its end and makes just these calls that write to sheets. -/
structure Sends (actions : List Action) (calls : String → List Sent) : Prop where
  ends : ∀ f, .stop f ∉ actions
  calls : ∀ sheet, actions.filterMap (Action.sent? sheet) = calls sheet

namespace Sends

variable {as bs : List Action} {f g : String → List Sent}

theorem nil : Sends [] fun _ ↦ [] := ⟨fun _ h ↦ List.not_mem_nil h, fun _ ↦ rfl⟩

theorem append (ha : Sends as f) (hb : Sends bs g) : Sends (as ++ bs) fun s ↦ f s ++ g s where
  ends x hx := (List.mem_append.mp hx).elim (ha.ends x) (hb.ends x)
  calls s := by rw [List.filterMap_append, ha.calls, hb.calls]

theorem silent {a : Action} (hends : ∀ x, .stop x ≠ a) (hcalls : ∀ sheet, a.sent? sheet = none)
    (ha : Sends as f) : Sends (a :: as) f where
  ends x hx := by
    rcases List.mem_cons.mp hx with hx | hx
    · exact hends x hx
    · exact ha.ends x hx
  calls s := by rw [List.filterMap_cons_none (hcalls s), ha.calls]

theorem idle {what : String} {c : Call} (h : ∀ sheet, c.sent? sheet = none) (ha : Sends as f) :
    Sends (.request what c :: as) f :=
  ha.silent (by simp) h

theorem fetch (ha : Sends as f) : Sends (.fetch :: as) f := ha.silent (by simp) fun _ ↦ rfl

theorem pause (seconds : Float) : Sends [.pause seconds] fun _ ↦ [] :=
  nil.silent (by simp) fun _ ↦ rfl

theorem followed (ha : Sends as f) (hb : Sends bs fun _ ↦ []) : Sends (as ++ bs) f := by
  simpa using ha.append hb

end Sends

theorem request_calm {r : Retry} (hr : 0 ≤ r.extra) (what : String) (c : Call) (log : List Entry) :
    request r (fun _ _ ↦ false) what c log = (log ++ [.call c false], none) := by
  rw [request, if_neg (by omega)]
  cases r.extra.toNat <;> rfl

theorem perform_calm {r : Retry} (hr : 0 ≤ r.extra) {actions : List Action}
    {calls : String → List Sent} (h : Sends actions calls) (log : List Entry) :
    ∃ entries, perform r (fun _ _ ↦ false) actions log = (log ++ entries, none) ∧
      ∀ sheet, entries.filterMap (Entry.sent? sheet) = calls sheet := by
  obtain ⟨hends, hcalls⟩ := h
  suffices ∃ entries, perform r (fun _ _ ↦ false) actions log = (log ++ entries, none) ∧
      ∀ sheet, entries.filterMap (Entry.sent? sheet) =
        actions.filterMap (Action.sent? sheet) by
    simpa only [hcalls] using this
  clear hcalls
  induction actions generalizing log with
  | nil => exact ⟨[], by simp [perform], fun _ ↦ rfl⟩
  | cons a as ih =>
    have hrest : ∀ f, .stop f ∉ as := fun f hf ↦ hends f (List.mem_cons_of_mem _ hf)
    cases a with
    | stop f => exact absurd (List.mem_cons_self ..) (hends f)
    | pause x =>
      obtain ⟨entries, hrun, hsent⟩ := ih (log ++ [.sleep x]) hrest
      refine ⟨.sleep x :: entries, by simpa [perform] using hrun, fun sheet ↦ ?_⟩
      simp only [List.filterMap_cons, Action.sent?, Entry.sent?, hsent sheet]
    | fetch =>
      obtain ⟨entries, hrun, hsent⟩ := ih (log ++ [.call .fetch false]) hrest
      exact ⟨.call .fetch false :: entries, by simpa [perform, attempt] using hrun, hsent⟩
    | request what c =>
      obtain ⟨entries, hrun, hsent⟩ := ih (log ++ [.call c false]) hrest
      refine ⟨.call c false :: entries, ?_, fun sheet ↦ ?_⟩
      · rw [perform, request_calm hr]
        simpa using hrun
      · simp only [List.filterMap_cons, Action.sent?, Entry.sent?, hsent sheet]

def Tabs.Opened (t : Tabs) (name : String) : Prop :=
  ∃ i tab, t.find? name = some (i, tab) ∧ tab.title = name

namespace Tabs

variable {t : Tabs} {name other : String} {rows : Number} {cols : Int}

theorem opened_add_self : (t.add name rows cols).Opened name :=
  ⟨t.tabs.length, ⟨name, rows, cols⟩, by simp [find?, add], rfl⟩

theorem Opened.add (h : t.Opened name) : (t.add other rows cols).Opened name := by
  by_cases hname : name = other
  · subst hname
    exact opened_add_self
  · obtain ⟨i, tab, hfind, htitle⟩ := h
    obtain ⟨j, hj, htab⟩ := Option.bind_eq_some_iff.mp hfind
    obtain ⟨tab', htab', heq⟩ := Option.map_eq_some_iff.mp htab
    obtain ⟨rfl, rfl⟩ := Prod.mk.inj heq
    have hlt : j < t.tabs.length := (List.getElem?_eq_some_iff.mp htab').1
    have hne : (name == other) = false := beq_eq_false_iff_ne.mpr hname
    refine ⟨j, tab', ?_, htitle⟩
    simp [find?, Tabs.add, List.lookup_cons, hne, hj, List.getElem?_append_left hlt, htab']

theorem opened_renameFirst (h : t.tabs ≠ []) : (t.renameFirst name rows cols).Opened name := by
  have hlen : 0 < t.tabs.length := List.length_pos_iff.mpr h
  exact ⟨0, ⟨name, rows, cols⟩, by simp [find?, renameFirst, hlen], rfl⟩

end Tabs

variable {t : Tabs} {es : List (Edit String)}

theorem Tabs.Opened.createSheets {name : String} (h : t.Opened name) {k : Nat} (hk : 0 < k) :
    (createSheets t (es.zipIdx k)).2.Opened name := by
  induction es generalizing t k with
  | nil => exact h
  | cons e es ih =>
    rw [List.zipIdx_cons]
    cases e with
    | create n rows cols =>
      have hk' : (k == 0) = false := by simpa using hk.ne'
      simp only [Service.createSheets, createSheet, hk', Bool.false_eq_true, if_false]
      exact ih h.add (Nat.succ_pos k)
    | _ => exact ih h (Nat.succ_pos k)

theorem opened_createSheets {k : Nat} (h : t.tabs ≠ [] ∨ 0 < k) (hes : ∀ e ∈ es, e.stage = .create)
    {e : Edit String} (he : e ∈ es) : (createSheets t (es.zipIdx k)).2.Opened e.sheet := by
  induction es generalizing t k with
  | nil => exact absurd he List.not_mem_nil
  | cons d es ih =>
    obtain ⟨hd, hrest⟩ := List.forall_mem_cons.mp hes
    rw [List.zipIdx_cons]
    cases d with
    | values | formula | named => cases hd
    | create name rows cols =>
      have hnew : (createSheet t (k == 0) name rows cols).2.Opened name := by
        rw [createSheet]
        split
        · rename_i hk
          have htabs : t.tabs ≠ [] := h.resolve_right (by simp [beq_iff_eq.mp hk])
          split
          · rename_i hnil
            exact absurd hnil htabs
          · exact Tabs.opened_renameFirst htabs
        · exact Tabs.opened_add_self
      rw [createSheets]
      dsimp only
      rcases List.mem_cons.mp he with rfl | he
      · exact hnew.createSheets (Nat.succ_pos k)
      · exact ih (.inr (Nat.succ_pos k)) hrest he

theorem sends_createSheets (es : List (Edit String × Nat)) :
    Sends (createSheets t es).1 fun _ ↦ [] := by
  induction es generalizing t with
  | nil => exact .nil
  | cons e es ih =>
    obtain ⟨e, k⟩ := e
    cases e with
    | values | formula | named => exact ih
    | create name rows cols =>
      have hnow : Sends (createSheet t (k == 0) name rows cols).1 fun _ ↦ [] := by
        rw [createSheet]
        split
        · split
          · exact .nil
          · refine .idle (fun _ ↦ rfl) (.idle (fun _ ↦ rfl) ?_)
            split
            · exact .nil
            · exact .idle (fun _ ↦ rfl) .nil
        · exact .idle (fun _ ↦ rfl) .nil
      exact hnow.followed ih

def bundle (raw : Bool) (us : List Update) : List Sent := if us = [] then [] else [(raw, us)]

variable {w : Writing}

theorem sends_writeSheet {sheet : String} {us : List Update} (hopen : t.Opened sheet)
    (hus : es.filterMapM w.update = .ok us) :
    Sends (writeSheet w t sheet es) fun s ↦ if s = sheet then bundle w.raw us else [] := by
  obtain ⟨i, tab, hfind, rfl⟩ := hopen
  rw [writeSheet, hfind]
  dsimp only
  rw [hus]
  cases us with
  | nil => simpa [bundle] using Sends.nil
  | cons u us =>
    refine ⟨by simp, fun s ↦ ?_⟩
    by_cases hs : s = tab.title
    · simp [Action.sent?, Call.sent?, bundle, hs]
    · simp [Action.sent?, Call.sent?, hs, Ne.symm hs]

theorem sends_flatMap {names : List String} {updates : String → List Update}
    (hnames : names.Nodup) (hopen : ∀ n ∈ names, t.Opened n)
    (hupdates : ∀ s, (es.filter (·.sheet == s)).filterMapM w.update = .ok (updates s)) :
    Sends (names.flatMap fun s ↦ writeSheet w t s (es.filter (·.sheet == s)))
      fun s ↦ if s ∈ names then bundle w.raw (updates s) else [] := by
  induction names with
  | nil => simpa using Sends.nil
  | cons n names ih =>
    obtain ⟨hn, hnames⟩ := List.nodup_cons.mp hnames
    obtain ⟨hopenn, hopen⟩ := List.forall_mem_cons.mp hopen
    have h := (sends_writeSheet hopenn (hupdates n)).append (ih hnames hopen)
    refine ⟨h.ends, fun s ↦ (h.calls s).trans ?_⟩
    -- a sheet occurs in the list only once
    by_cases hs : s = n
    · subst hs
      simp [hn]
    · simp [hs]

theorem sends_writeSheets {updates : String → List Update} (hopen : ∀ e ∈ es, t.Opened e.sheet)
    (hupdates : ∀ s, ((ofStage w.stage es).filter (·.sheet == s)).filterMapM w.update =
      .ok (updates s)) :
    Sends (writeSheets w t es) fun s ↦ bundle w.raw (updates s) := by
  have hmine : ∀ n ∈ Schedule.sheetsOf (ofStage w.stage es), t.Opened n := by
    intro n hn
    obtain ⟨e, he, rfl⟩ := List.mem_map.mp (mem_distinct.mp hn)
    exact hopen e (Schedule.mem_ofStage.mp he).1
  have h := sends_flatMap (nodup_distinct _) hmine hupdates
  refine ⟨h.ends, fun s ↦ (h.calls s).trans ?_⟩
  split
  · rfl
  · rename_i hs
    -- no edit is for a sheet that is not in the list
    have hnone : (ofStage w.stage es).filter (·.sheet == s) = [] := by
      refine List.filter_eq_nil_iff.mpr fun e he hes ↦ hs ?_
      exact mem_distinct.mpr (beq_iff_eq.mp hes ▸ List.mem_map_of_mem he)
    have hupdate := hupdates s
    rw [hnone] at hupdate
    rw [← Except.ok.inj hupdate]
    rfl

theorem sends_nameRanges (hopen : ∀ e ∈ es, t.Opened e.sheet) :
    Sends (nameRanges t es) fun _ ↦ [] := by
  unfold nameRanges
  dsimp only
  generalize hrequests : ((ofStage .names es).mapM _ : Outcome _) = requests
  have hok : Outcome.Succeeds requests := by
    rw [← hrequests, Outcome.succeeds_mapM]
    intro e he
    obtain ⟨hes, hstage⟩ := Schedule.mem_ofStage.mp he
    obtain ⟨i, tab, hfind, _⟩ := hopen e hes
    cases e with
    | named name sheet r c re ce =>
      rw [Edit.sheet] at hfind
      simp [hfind]
    | _ => cases hstage
  obtain ⟨rs, rfl⟩ := hok
  cases rs with
  | nil => exact .nil
  | cons => exact .idle (fun _ ↦ rfl) .nil

def Writing.update? (w : Writing) (e : Edit String) : Option Update := (w.update e).toOption.join

theorem Writing.filterMapM_update (h : ∀ e ∈ es, Outcome.Succeeds (w.update e)) :
    es.filterMapM w.update = .ok (es.filterMap w.update?) := by
  induction es with
  | nil => rfl
  | cons e es ih =>
    obtain ⟨⟨o, ho⟩, hes⟩ := List.forall_mem_cons.mp h
    have hupdate : w.update? e = o := by simp [update?, ho, Except.toOption]
    rw [List.filterMapM_cons, ho, Outcome.ok_bind, ih hes, List.filterMap_cons, hupdate]
    cases o <;> rfl

def Writing.calls (w : Writing) (es : List (Edit String)) (sheet : String) : List Sent :=
  bundle w.raw ((es.filter (·.sheet == sheet)).filterMap w.update?)

theorem Writing.length_calls (w : Writing) (es : List (Edit String)) (sheet : String) (raw : Bool) :
    ((w.calls es sheet).filter (·.1 == raw)).length ≤ if w.raw = raw then 1 else 0 := by
  rw [calls, bundle]
  by_cases hraw : w.raw = raw <;> split <;> simp [hraw]

theorem sends_batchesActions {b : Batch String} {calls : String → List Sent} (delay : Float)
    (h : Sends (batchActions t b).1 calls) : Sends (batchesActions delay t [b]).1 calls := by
  simp only [batchesActions, List.append_nil]
  refine h.followed ?_
  split
  · exact .pause delay
  · exact .nil

theorem batchesActions_append (delay : Float) (bs cs : List (Batch String)) :
    (batchesActions delay t (bs ++ cs)) =
      ((batchesActions delay t bs).1 ++
        (batchesActions delay (batchesActions delay t bs).2 cs).1,
      (batchesActions delay (batchesActions delay t bs).2 cs).2) := by
  induction bs generalizing t with
  | nil => rfl
  | cons b bs ih =>
    simp only [List.cons_append, batchesActions, ih, List.append_assoc]

theorem sends_writing (delay : Float) (hw : w = .values ∨ w = .formulas)
    (hopen : ∀ e ∈ es, t.Opened e.sheet)
    (hupdate : ∀ e ∈ es, e.stage = w.stage → Outcome.Succeeds (w.update e)) :
    Sends (batchesActions delay t (batch? w.stage es).toList).1
        (w.calls ((batch? w.stage es).toList.flatMap (·.edits))) ∧
      (batchesActions delay t (batch? w.stage es).toList).2 = t := by
  cases hbatch : batch? w.stage es with
  | none => exact ⟨.nil, rfl⟩
  | some b =>
    have hactions : batchActions t b = (writeSheets w t b.edits, t) := by
      rw [batchActions, Schedule.stage_of_batch? hbatch]
      rcases hw with rfl | rfl <;> rfl
    have hmine : ofStage w.stage b.edits = b.edits := by
      have hstage : ∀ e ∈ b.edits, e.stage = w.stage := fun e he ↦
        (Schedule.mem_of_batch? hbatch he).2
      rw [Schedule.ofStage_of_forall w.stage hstage, if_pos rfl]
    have hsends : Sends (writeSheets w t b.edits) (w.calls b.edits) := by
      refine sends_writeSheets (fun e he ↦ hopen e (Schedule.mem_of_batch? hbatch he).1) fun s ↦ ?_
      rw [hmine]
      refine Writing.filterMapM_update fun e he ↦ ?_
      obtain ⟨hes, hstage⟩ := Schedule.mem_of_batch? hbatch (List.mem_of_mem_filter he)
      exact hupdate e hes hstage
    rw [Option.toList_some, List.flatMap_singleton]
    refine ⟨sends_batchesActions delay ?_, ?_⟩
    · rw [hactions]
      exact hsends
    · simp [batchesActions, hactions]

theorem sends_creating (delay : Float) :
    Sends (batchesActions delay t (batch? .create es).toList).1 fun _ ↦ [] := by
  cases hbatch : batch? .create es with
  | none => exact .nil
  | some b =>
    refine sends_batchesActions delay ?_
    rw [batchActions, Schedule.stage_of_batch? hbatch]
    exact (sends_createSheets _).fetch

theorem sends_naming (delay : Float) (hopen : ∀ e ∈ es, t.Opened e.sheet) :
    Sends (batchesActions delay t (batch? .names es).toList).1 fun _ ↦ [] := by
  cases hbatch : batch? .names es with
  | none => exact .nil
  | some b =>
    refine sends_batchesActions delay ?_
    rw [batchActions, Schedule.stage_of_batch? hbatch]
    exact sends_nameRanges fun e he ↦ hopen e (Schedule.mem_of_batch? hbatch he).1

theorem opened_creating (delay : Float) (htabs : t.tabs ≠ []) {name : String}
    (h : name ∈ (ofStage .create es).map (·.sheet)) :
    (batchesActions delay t (batch? .create es).toList).2.Opened name := by
  obtain ⟨e, he, rfl⟩ := List.mem_map.mp h
  have hedits := Schedule.edits_batch? .create es
  rw [if_neg (by decide)] at hedits
  rw [← hedits] at he
  obtain ⟨b, hb, he⟩ := List.mem_flatMap.mp he
  have hbatch := Option.mem_toList.mp hb
  rw [hbatch, Option.toList_some]
  simp only [batchesActions, batchActions, Schedule.stage_of_batch? hbatch]
  exact opened_createSheets (.inl htabs) (fun d hd ↦ (Schedule.mem_of_batch? hbatch hd).2) he

variable {main : Option String} {s : Schedule String}

theorem sends_batches (h : Schedule.ofEdits es main = .ok s) (htabs : t.tabs ≠ [])
    (hvalues : ∀ e ∈ es, Outcome.Succeeds (valueUpdate e)) (delay : Float) :
    Sends (batchesActions delay t s.batches).1 fun sheet ↦
      Writing.values.calls (ofStage .values s.edits) sheet ++
        Writing.formulas.calls (ofStage .formulas s.edits) sheet := by
  have hstage : ∀ stage, (batch? stage es).toList.flatMap (·.edits) =
      ofStage stage s.edits := by
    intro stage
    rw [Schedule.edits_batch?, Schedule.ofStage_edits h]
    cases stage <;> rfl
  have hcreate : Sends (batchesActions delay t (batch? .create es).toList).1 fun _ ↦ [] :=
    sends_creating delay
  have hopen : ∀ e ∈ es,
      (batchesActions delay t (batch? .create es).toList).2.Opened e.sheet := fun e he ↦
    opened_creating delay htabs (Schedule.sheet_mem_created h he)
  rw [Schedule.batches_ofEdits h, batchesActions_append, batchesActions_append,
    batchesActions_append]
  generalize (batchesActions delay t (batch? .create es).toList).2 = t' at hopen ⊢
  -- the sheets stay as they are from here on
  obtain ⟨hsendv, hv⟩ := sends_writing delay (.inl rfl) hopen fun e he _ ↦ hvalues e he
  have hformula : ∀ e : Edit String, Outcome.Succeeds (formulaUpdate e) := fun e ↦ by
    cases e <;> simp [formulaUpdate]
  obtain ⟨hsendf, hf⟩ := sends_writing delay (.inr rfl) hopen fun e _ _ ↦ hformula e
  have hname := sends_naming delay hopen
  rw [hstage] at hsendv hsendf
  simp only [Writing.values, Writing.formulas] at hv hf
  dsimp only
  rw [hv, hf]
  exact hcreate.append (hsendv.append (hsendf.followed hname))

theorem sends_script (h : Schedule.ofEdits es main = .ok s)
    (hvalues : ∀ e ∈ es, Outcome.Succeeds (valueUpdate e)) (title : String) (delay : Float)
    (rows cols : Int) :
    Sends (script s title delay rows cols) fun sheet ↦
      Writing.values.calls (ofStage .values s.edits) sheet ++
        Writing.formulas.calls (ofStage .formulas s.edits) sheet := by
  have htabs : (⟨[⟨"Sheet1", .int rows, cols⟩], []⟩ : Tabs).tabs ≠ [] := List.cons_ne_nil _ _
  have hbatches := sends_batches h htabs hvalues delay
  unfold script
  dsimp only
  refine .idle (fun _ ↦ rfl) (hbatches.followed ?_)
  split
  · exact .nil
  · exact .nil
  · split
    · exact .nil
    · exact .idle (fun _ ↦ rfl) .nil

theorem execute_calm (h : Schedule.ofEdits es main = .ok s)
    (hvalues : ∀ e ∈ es, Outcome.Succeeds (valueUpdate e)) (hsize : checkSize s = .ok ())
    {r : Retry} (hr : 0 ≤ r.extra) (title : String) (delay : Float) (rows cols : Int) :
    ∃ log, execute r (fun _ _ ↦ false) s title delay rows cols = (log, none) ∧
      ∀ sheet, log.filterMap (Entry.sent? sheet) =
        Writing.values.calls (ofStage .values s.edits) sheet ++
          Writing.formulas.calls (ofStage .formulas s.edits) sheet := by
  obtain ⟨entries, hrun, hsent⟩ :=
    perform_calm hr (sends_script h hvalues title delay rows cols) []
  refine ⟨entries, ?_, hsent⟩
  rw [execute, hsize]
  exact hrun

end Service

end Gridplan
