import Gridplan.Proofs.Service.Batches

namespace Gridplan.Service

/-- Whether the calls of a log failed just when the outage says. -/
def Truthful (fails : Outage) (log : List Entry) : Prop :=
  ∀ (i : Nat) (c : Call) (failed : Bool), log[i]? = some (.call c failed) →
    failed = fails c (callCount c.name (log.take i) + 1)

def Entry.success? : Entry → Option Call
  | .call c false => some c
  | _ => none

def successes (log : List Entry) : List Call := log.filterMap Entry.success?

/-- What a log shows of one action. -/
inductive Round where
  | rest (seconds : Float)
  /-- The first sheet is asked for, which is done once. -/
  | fetched (failed : Bool)
  /-- A call that failed `failures` times with a pause after each and was then made once more. -/
  | tried (c : Call) (failures : Nat) (failed : Bool)

def Retry.failures (r : Retry) (c : Call) (k : Nat) : List Entry :=
  (List.range k).flatMap fun i ↦ [.call c true, .sleep (r.delay * Float.ofNat (Nat.pow 2 i))]

namespace Round

def entries (r : Retry) : Round → List Entry
  | rest s => [.sleep s]
  | fetched failed => [.call .fetch failed]
  | tried c k failed => r.failures c k ++ [.call c failed]

/-- Whether the call succeeded in the end, within its attempts. -/
def Settled (r : Retry) : Round → Prop
  | rest _ => True
  | fetched failed => failed = false
  | tried _ k failed => failed = false ∧ (k : Int) ≤ r.extra

def calm : Round → Round
  | rest s => rest s
  | fetched _ => fetched false
  | tried c _ _ => tried c 0 false

end Round

/-- The fault when a call has failed in its last attempt. The pause before the attempt after the
1025th has no length, so there is none. -/
def Retry.surrender (r : Retry) (what : String) (c : Call) (log : List Entry) : Fault :=
  if r.extra ≤ 1024 then .service (.gaveUp what (r.extra + 1) (c.failure (callCount c.name log)))
  else .overflow

theorem Retry.surrender_of_le {r : Retry} (h : r.extra ≤ 1024) (what : String) (c : Call)
    (log : List Entry) : r.surrender what c log =
      .service (.gaveUp what (r.extra + 1) (c.failure (callCount c.name log))) :=
  if_pos h

theorem Retry.surrender_of_lt {r : Retry} (h : 1024 < r.extra) (what : String) (c : Call)
    (log : List Entry) : r.surrender what c log = .overflow :=
  if_neg (Int.not_le.mpr h)

/-- The rounds with which a run breaks off after a log, the call that was not carried out, and the
fault. -/
inductive Round.Breaks (r : Retry) (log : List Entry) : Round → Call → Fault → Prop
  | fetched : Breaks r log (.fetched true) .fetch
      (.refused (Call.fetch.failure (callCount Call.fetch.name log)))
  | tried (what : String) (c : Call) : Breaks r log (.tried c (min r.extra.toNat 1024) true) c
      (r.surrender what c log)

section Log

variable {fails : Outage} {log : List Entry} {c : Call}

theorem callCount_concat_call (failed : Bool) :
    callCount c.name (log ++ [.call c failed]) = callCount c.name log + 1 := by
  simp [callCount]

theorem attempt_eq (fails : Outage) (c : Call) (log : List Entry) :
    attempt fails c log =
      (log ++ [.call c (fails c (callCount c.name log + 1))],
        if fails c (callCount c.name log + 1) then some (c.failure (callCount c.name log + 1))
        else none) := by
  cases h : fails c (callCount c.name log + 1) <;> simp [attempt, h]

theorem truthful_concat {e : Entry} (hlog : Truthful fails log)
    (he : ∀ c failed, e = .call c failed → failed = fails c (callCount c.name log + 1)) :
    Truthful fails (log ++ [e]) := by
  intro i c failed hi
  by_cases hlt : i < log.length
  · rw [List.getElem?_append_left hlt] at hi
    rw [List.take_append_of_le_length (Nat.le_of_lt hlt)]
    exact hlog i c failed hi
  · have hlen : i = log.length := by
      have := (List.getElem?_eq_some_iff.mp hi).1
      simp only [List.length_append, List.length_singleton] at this
      omega
    subst hlen
    rw [List.getElem?_concat_length, Option.some.injEq] at hi
    rw [List.take_left]
    exact he c failed hi

theorem Truthful.sleep (hlog : Truthful fails log) (s : Float) :
    Truthful fails (log ++ [.sleep s]) := by
  apply truthful_concat hlog
  intro c failed h
  cases h

theorem Truthful.call (hlog : Truthful fails log) :
    Truthful fails (log ++ [.call c (fails c (callCount c.name log + 1))]) := by
  apply truthful_concat hlog
  intro c' failed h
  cases h
  rfl

theorem Truthful.exists_not_fails (hlog : Truthful fails log) (hc : c ∈ successes log) :
    ∃ n, fails c n = false := by
  obtain ⟨e, he, hs⟩ := List.mem_filterMap.mp hc
  obtain ⟨i, hi⟩ := List.mem_iff_getElem?.mp he
  cases e with
  | sleep s => cases hs
  | call d failed =>
    cases failed with
    | true => cases hs
    | false =>
      cases hs
      exact ⟨_, (hlog i c false hi).symm⟩

theorem successes_append (a b : List Entry) : successes (a ++ b) = successes a ++ successes b :=
  List.filterMap_append

theorem Retry.failures_succ (r : Retry) (c : Call) (k : Nat) :
    r.failures c (k + 1) =
      r.failures c k ++ [.call c true, .sleep (r.delay * Float.ofNat (Nat.pow 2 k))] := by
  simp [failures, List.range_succ]

@[simp]
theorem successes_failures (r : Retry) (c : Call) (k : Nat) : successes (r.failures c k) = [] := by
  induction k with
  | zero => rfl
  | succ k ih => rw [r.failures_succ, successes_append, ih]; rfl

end Log

section Rounds

variable {r : Retry} {fails : Outage} {log : List Entry} {c : Call}

theorem successes_calm {rounds : List Round} (h : ∀ d ∈ rounds, d.Settled r) :
    successes (rounds.flatMap (Round.entries r)) =
      successes ((rounds.map Round.calm).flatMap (Round.entries r)) := by
  induction rounds with
  | nil => rfl
  | cons d rounds ih =>
    obtain ⟨hd, hrest⟩ := List.forall_mem_cons.mp h
    simp only [List.map_cons, List.flatMap_cons, successes_append, ih hrest]
    cases d with
    | rest s => rfl
    | fetched failed =>
      obtain rfl : failed = false := hd
      rfl
    | tried c k failed =>
      obtain ⟨rfl, -⟩ := hd
      simp only [Round.calm, Round.entries, successes_append, successes_failures]

/-- A run that breaks off lacks one call of the run in which the round succeeds. -/
theorem successes_breaks {before : List Round} {last : Round} {f : Fault}
    (h : ∀ d ∈ before, d.Settled r) (hlast : last.Breaks r log c f) :
    successes ((before ++ [last]).flatMap (Round.entries r)) ++ [c] =
      successes (((before ++ [last]).map Round.calm).flatMap (Round.entries r)) := by
  have hnone : successes (last.entries r) = [] := by
    cases hlast with
    | fetched => rfl
    | tried =>
      rw [Round.entries, successes_append, successes_failures]
      rfl
  have hone : successes (last.calm.entries r) = [c] := by cases hlast <;> rfl
  rw [List.flatMap_append, List.flatMap_singleton, successes_append, hnone, List.append_nil,
    successes_calm h, List.map_append, List.flatMap_append, successes_append, List.map_singleton,
    List.flatMap_singleton, hone]

theorem successes_prefix {a b : List Round} (h : a <+: b) :
    successes (a.flatMap (Round.entries r)) <+: successes (b.flatMap (Round.entries r)) := by
  obtain ⟨rest, rfl⟩ := h
  rw [List.flatMap_append, successes_append]
  exact List.prefix_append _ _

/-- What requesting a call comes to: a round in which it succeeds at last, or one that uses up all
attempts. -/
def Requested (r : Retry) (fails : Outage) (what : String) (c : Call) (log : List Entry)
    (result : List Entry × Option Fault) : Prop :=
  ∃ k failed, ∃ after, after = log ++ (Round.tried c k failed).entries r ∧ Truthful fails after ∧
    ((Round.tried c k failed).Settled r ∧ result = (after, none) ∨
      k = min r.extra.toNat 1024 ∧ failed = true ∧
        result = (after, some (r.surrender what c after)))

theorem persist_round (what : String) {left i : Nat} (hextra : (i + left : Int) = r.extra)
    (hi : i ≤ 1024) (hlog : Truthful fails (log ++ r.failures c i)) :
    Requested r fails what c log (persist r fails what c left i (log ++ r.failures c i)) := by
  induction left generalizing i with
  | zero =>
    refine ⟨i, fails c (callCount c.name (log ++ r.failures c i) + 1), _, rfl, ?_, ?_⟩
    · rw [Round.entries, ← List.append_assoc]
      exact hlog.call
    · rw [persist, attempt_eq]
      cases hf : fails c (callCount c.name (log ++ r.failures c i) + 1) with
      | false => exact .inl ⟨⟨rfl, by omega⟩, by simp [Round.entries]⟩
      | true =>
        refine .inr ⟨by omega, rfl, ?_⟩
        rw [Retry.surrender_of_le (by omega), Round.entries, ← List.append_assoc,
          callCount_concat_call]
        rfl
  | succ left ih =>
    cases hf : fails c (callCount c.name (log ++ r.failures c i) + 1) with
    | false =>
      refine ⟨i, false, _, rfl, ?_, .inl ⟨⟨rfl, by omega⟩, ?_⟩⟩
      · rw [Round.entries, ← List.append_assoc, ← hf]
        exact hlog.call
      · rw [persist, attempt_eq, hf]
        simp [Round.entries]
    | true =>
      have hcall : Truthful fails (log ++ r.failures c i ++ [.call c true]) := hf ▸ hlog.call
      by_cases hlt : i < 1024
      -- the pause has a length, and the failures are one more
      · have hpause : r.pause? i = some (r.delay * Float.ofNat (Nat.pow 2 i)) := if_pos hlt
        have hmore : log ++ r.failures c (i + 1) = log ++ r.failures c i ++ [.call c true] ++
            [.sleep (r.delay * Float.ofNat (Nat.pow 2 i))] := by
          simp [r.failures_succ]
        have hnext := ih (i := i + 1) (by push_cast; omega) hlt (hmore ▸ hcall.sleep _)
        rw [persist, attempt_eq, hf]
        simpa only [if_true, hpause, ← hmore] using hnext
      · have hpause : r.pause? i = none := if_neg hlt
        refine ⟨i, true, _, rfl, ?_, .inr ⟨by omega, rfl, ?_⟩⟩
        · rw [Round.entries, ← List.append_assoc]
          exact hcall
        · rw [persist, attempt_eq, hf, Retry.surrender_of_lt (by omega), Round.entries,
            ← List.append_assoc]
          simp only [if_true, hpause]

theorem request_round (hr : 0 ≤ r.extra) (what : String) (c : Call) (hlog : Truthful fails log) :
    Requested r fails what c log (request r fails what c log) := by
  have hnil : log ++ r.failures c 0 = log := List.append_nil log
  have hextra : ((0 : Nat) + r.extra.toNat : Int) = r.extra := by omega
  have h := persist_round what hextra (by omega) (hnil.symm ▸ hlog)
  rw [hnil] at h
  simpa only [request, if_neg (show ¬ r.extra < 0 by omega)] using h

end Rounds

section Scripts

variable {r : Retry}

/-- The rounds of a script when no call fails, and the fault that ends it. -/
def calmRounds : List Action → List Round × Option Fault
  | [] => ([], none)
  | .pause s :: rest => (.rest s :: (calmRounds rest).1, (calmRounds rest).2)
  | .stop f :: _ => ([], some f)
  | .fetch :: rest => (.fetched false :: (calmRounds rest).1, (calmRounds rest).2)
  | .request _ c :: rest => (.tried c 0 false :: (calmRounds rest).1, (calmRounds rest).2)

theorem perform_calmRounds (hr : 0 ≤ r.extra) (actions : List Action) (log : List Entry) :
    perform r (fun _ _ ↦ false) actions log =
      (log ++ (calmRounds actions).1.flatMap (Round.entries r), (calmRounds actions).2) := by
  induction actions generalizing log with
  | nil => simp [perform, calmRounds]
  | cons a actions ih =>
    cases a with
    | pause s => simp [perform, calmRounds, Round.entries, ih]
    | stop f => simp [perform, calmRounds]
    | fetch => simp [perform, attempt, calmRounds, Round.entries, ih]
    | request what c =>
      rw [perform, request_calm hr]
      simp [calmRounds, Round.entries, Retry.failures, ih]

/-- What a script comes to, given its rounds when no call fails: all of these rounds, or those up to
one that breaks off. -/
def Performed (r : Retry) (fails : Outage) (calm : List Round × Option Fault) (log : List Entry)
    (result : List Entry × Option Fault) : Prop :=
  ∃ rounds after, after = log ++ rounds.flatMap (Round.entries r) ∧ Truthful fails after ∧
    rounds.map Round.calm <+: calm.1 ∧
    ((∀ d ∈ rounds, d.Settled r) ∧ rounds.map Round.calm = calm.1 ∧ result = (after, calm.2) ∨
      ∃ before last c f, rounds = before ++ [last] ∧ (∀ d ∈ before, d.Settled r) ∧
        last.Breaks r after c f ∧ result = (after, some f))

variable {fails : Outage} {log : List Entry}

theorem Performed.cons {calm : List Round × Option Fault} {result : List Entry × Option Fault}
    {d : Round} (hd : d.Settled r) (h : Performed r fails calm (log ++ d.entries r) result) :
    Performed r fails (d.calm :: calm.1, calm.2) log result := by
  obtain ⟨rounds, after, hafter, htrue, hcalm, hends⟩ := h
  refine ⟨d :: rounds, after, by simpa using hafter, htrue,
    List.cons_prefix_cons.mpr ⟨rfl, hcalm⟩, ?_⟩
  obtain ⟨hall, hwhole, hrun⟩ | ⟨before, last, c, f, hlast, hall, hbreaks, hrun⟩ := hends
  · refine .inl ⟨List.forall_mem_cons.mpr ⟨hd, hall⟩, ?_, hrun⟩
    exact congrArg (List.cons d.calm) hwhole
  · refine .inr ⟨d :: before, last, c, f, congrArg (List.cons d) hlast, ?_, hbreaks, hrun⟩
    exact List.forall_mem_cons.mpr ⟨hd, hall⟩

theorem Performed.breaks {calm : List Round × Option Fault} {last : Round} {c : Call} {f : Fault}
    (htrue : Truthful fails (log ++ last.entries r))
    (hbreaks : last.Breaks r (log ++ last.entries r) c f) :
    Performed r fails (last.calm :: calm.1, calm.2) log (log ++ last.entries r, some f) := by
  refine ⟨[last], _, by simp, htrue, ?_, .inr ⟨[], last, c, f, rfl, ?_, hbreaks, rfl⟩⟩
  · exact List.cons_prefix_cons.mpr ⟨rfl, List.nil_prefix⟩
  · exact List.forall_mem_nil _

theorem perform_rounds (hr : 0 ≤ r.extra) (fails : Outage) (actions : List Action)
    (hlog : Truthful fails log) :
    Performed r fails (calmRounds actions) log (perform r fails actions log) := by
  induction actions generalizing log with
  | nil => exact ⟨[], log, by simp, hlog, List.nil_prefix, .inl ⟨by simp, rfl, rfl⟩⟩
  | cons a actions ih =>
    cases a with
    | stop f => exact ⟨[], log, by simp, hlog, List.nil_prefix, .inl ⟨by simp, rfl, rfl⟩⟩
    | pause s => exact .cons (d := .rest s) trivial (ih (hlog.sleep s))
    | fetch =>
      have hcall := hlog.call (c := .fetch)
      rw [perform, attempt_eq]
      cases hf : fails .fetch (callCount Call.fetch.name log + 1) with
      | false =>
        rw [hf] at hcall
        exact .cons (d := .fetched false) rfl (ih hcall)
      | true =>
        rw [hf] at hcall
        rw [← callCount_concat_call (c := .fetch) true]
        exact .breaks hcall .fetched
    | request what c =>
      obtain ⟨k, failed, mid, rfl, hmid, hround⟩ := request_round hr what c hlog
      rw [perform]
      obtain ⟨hsettled, hreq⟩ | ⟨rfl, rfl, hreq⟩ := hround
      · rw [hreq]
        exact .cons hsettled (ih hmid)
      · rw [hreq]
        exact .breaks hmid (.tried what c)

end Scripts

/-- Retries are transparent, but for the call that asks for the first sheet outside of them. The
calls that succeed are those of a run without failures, up to a call that fails in all of its
attempts; after such a call there is no other one. The `i`th failure of a call that is made again is
followed by one pause, twice as long as the one before, and by the same call. The fault at the end
tells that the attempts are used up, unless more than 1025 of them were allowed. When the sheet is
asked for outside of the retries, one failure ends the run with what the service says. -/
theorem execute_transparent {r : Retry} (hr : 0 ≤ r.extra) (fails : Outage) (s : Schedule String)
    (title : String) (delay : Float) (rows cols : Int) {calm run : List Entry × Option Fault}
    (hcalm : execute r (fun _ _ ↦ false) s title delay rows cols = calm)
    (hrun : execute r fails s title delay rows cols = run) :
    Truthful fails run.1 ∧ successes run.1 <+: successes calm.1 ∧
      ∃ rounds : List Round, run.1 = rounds.flatMap (Round.entries r) ∧
        ((∀ d ∈ rounds, d.Settled r) ∧ successes run.1 = successes calm.1 ∧ run.2 = calm.2 ∨
          (∃ before what c, rounds = before ++ [.tried c (min r.extra.toNat 1024) true] ∧
            (∀ d ∈ before, d.Settled r) ∧ successes run.1 ++ [c] <+: successes calm.1 ∧
            run.2 = some (if r.extra ≤ 1024 then
              .service (.gaveUp what (r.extra + 1) (c.failure (callCount c.name run.1)))
              else .overflow)) ∨
          ∃ before, rounds = before ++ [.fetched true] ∧ (∀ d ∈ before, d.Settled r) ∧
            successes run.1 ++ [.fetch] <+: successes calm.1 ∧
            run.2 = some (.refused (Call.fetch.failure (callCount Call.fetch.name run.1)))) := by
  cases hsize : checkSize s with
  | error f =>
    have hrefused : ∀ fails, execute r fails s title delay rows cols = ([], some f) := by
      intro fails
      rw [execute, hsize]
    obtain rfl := (hrefused _).symm.trans hcalm
    obtain rfl := (hrefused _).symm.trans hrun
    exact ⟨by simp [Truthful], List.prefix_rfl, [], rfl, .inl ⟨by simp, rfl, rfl⟩⟩
  | ok u =>
    have hperform : ∀ fails, execute r fails s title delay rows cols =
        perform r fails (script s title delay rows cols) [] := by
      intro fails
      rw [execute, hsize]
    rw [hperform] at hcalm hrun
    generalize script s title delay rows cols = actions at hcalm hrun
    rw [perform_calmRounds hr, List.nil_append] at hcalm
    subst hcalm
    have hnil : Truthful fails [] := by simp [Truthful]
    obtain ⟨rounds, after, hafter, htrue, hprefix, hends⟩ := perform_rounds hr fails actions hnil
    rw [List.nil_append] at hafter
    have hcalls := successes_prefix (r := r) hprefix
    obtain ⟨hsettled, hwhole, hend⟩ | ⟨before, last, c, f, rfl, hsettled, hbreaks, hend⟩ := hends
    · obtain rfl := hend.symm.trans hrun
      have heq : successes after = successes ((calmRounds actions).1.flatMap (Round.entries r)) := by
        rw [hafter, successes_calm hsettled, hwhole]
      exact ⟨htrue, heq ▸ List.prefix_rfl, rounds, hafter, .inl ⟨hsettled, heq, rfl⟩⟩
    · obtain rfl := hend.symm.trans hrun
      have hnext : successes after ++ [c] <+:
          successes ((calmRounds actions).1.flatMap (Round.entries r)) := by
        rw [hafter, successes_breaks hsettled hbreaks]
        exact hcalls
      refine ⟨htrue, (List.prefix_append _ _).trans hnext, _, hafter, .inr ?_⟩
      cases hbreaks with
      | fetched => exact .inr ⟨before, rfl, hsettled, hnext, rfl⟩
      | tried what => exact .inl ⟨before, what, c, rfl, hsettled, hnext, rfl⟩

/-- A sheet with values and a formula. -/
def stock : List (Edit String) :=
  [.create "S" (.int 3) 2,
    .values "S" 0 0 (.list [.list [.text "a", .text "b"], .list [.int 1, .int 2]]),
    .formula "S" 2 0 "=A2+B2" none]

def stocked : Schedule String := ⟨Stage.all.filterMap (Schedule.batch? · stock), some "S"⟩

theorem execute_transparent_stocked :
    let r : Retry := ⟨3, 1⟩
    let fails : Outage := fun c n ↦ c.name == "batch_update" && decide (n ≤ 2)
    let calm := execute r (fun _ _ ↦ false) stocked "T" 0.5 1000 26
    let run := execute r fails stocked "T" 0.5 1000 26
    0 ≤ r.extra ∧ calm.2 = none ∧ Truthful fails run.1 ∧ successes run.1 <+: successes calm.1 ∧
      ∃ rounds : List Round, run.1 = rounds.flatMap (Round.entries r) ∧
        ((∀ d ∈ rounds, d.Settled r) ∧ successes run.1 = successes calm.1 ∧ run.2 = calm.2 ∨
          (∃ before what c, rounds = before ++ [.tried c (min r.extra.toNat 1024) true] ∧
            (∀ d ∈ before, d.Settled r) ∧ successes run.1 ++ [c] <+: successes calm.1 ∧
            run.2 = some (if r.extra ≤ 1024 then
              .service (.gaveUp what (r.extra + 1) (c.failure (callCount c.name run.1)))
              else .overflow)) ∨
          ∃ before, rounds = before ++ [.fetched true] ∧ (∀ d ∈ before, d.Settled r) ∧
            successes run.1 ++ [.fetch] <+: successes calm.1 ∧
            run.2 = some (.refused (Call.fetch.failure (callCount Call.fetch.name run.1)))) := by
  have hschedule : Schedule.ofEdits stock (some "S") = .ok stocked := rfl
  have hvalues : ∀ e ∈ stock, Outcome.Succeeds (valueUpdate e) := by
    intro e he
    simp only [stock, List.mem_cons, List.not_mem_nil, or_false] at he
    rcases he with rfl | rfl | rfl <;> exact ⟨_, rfl⟩
  have hr : 0 ≤ (⟨3, 1⟩ : Retry).extra := by decide
  obtain ⟨log, hcalm, -⟩ := execute_calm hschedule hvalues rfl hr "T" 0.5 1000 26
  exact ⟨hr, by rw [hcalm], execute_transparent hr _ stocked "T" 0.5 1000 26 rfl rfl⟩

/-- With 1026 attempts a call is made only 1025 times: the pause after the last of them has no
length. And one failure is enough when the first sheet is asked for outside of the retries. -/
theorem execute_stops_early :
    execute ⟨1025, 0⟩ (fun _ _ ↦ true) ⟨[], none⟩ "T" 0 1000 26 =
        ((Round.tried (.create "T") 1024 true).entries ⟨1025, 0⟩, some .overflow) ∧
      execute ⟨3, 1⟩ (fun c n ↦ c.name == "sheet1" && decide (n ≤ 1)) stocked "T" 0.5 1000 26 =
        ([.call (.create "T") false, .call .fetch true], some (.refused "sheet1 failure 1")) := by
  refine ⟨?_, rfl⟩
  have hscript : execute ⟨1025, 0⟩ (fun _ _ ↦ true) ⟨[], none⟩ "T" 0 1000 26 =
      perform ⟨1025, 0⟩ (fun _ _ ↦ true) [.request "create spreadsheet 'T'" (.create "T")] [] := rfl
  have hnil : Truthful (fun _ _ ↦ true) [] := by simp [Truthful]
  obtain ⟨k, failed, after, hafter, htrue, hround⟩ :=
    request_round (r := ⟨1025, 0⟩) (by decide) "create spreadsheet 'T'" (.create "T") hnil
  obtain ⟨⟨rfl, -⟩, -⟩ | ⟨rfl, rfl, hreq⟩ := hround
  · have hmem : Call.create "T" ∈ successes after := by
      simp [hafter, Round.entries, successes, Entry.success?]
    obtain ⟨n, hn⟩ := htrue.exists_not_fails hmem
    cases hn
  · rw [hscript, perform, hreq, Retry.surrender_of_lt (by decide), hafter]
    simp

end Gridplan.Service
