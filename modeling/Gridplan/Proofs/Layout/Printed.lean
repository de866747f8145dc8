import Gridplan.Proofs.Layout.Optimized
import Gridplan.Proofs.Layout.Order
import Gridplan.Proofs.Plan.Document

namespace Gridplan

open Layout
open Outcome (bind_eq_ok)

/-- Whether no condition is given. A filter always has one. -/
def Operator.isUnconditional : Operator → Bool
  | .filter _ => false
  | .select _ c | .sort _ _ c => c.all fun e ↦ !e.truthy
  | _ => true

/-- Whether the value of a computed column is plain data that a text gives back. -/
def Operator.isSettled : Operator → Bool
  | .withColumn _ (.raw d) => d.listed == d
  | .withColumn .. => false
  | _ => true

variable {sources : Sources} {op : Operator} {is : List Plan} {p : Plan}

theorem Expr.truthy_filed {e : Expr} (h : e.isStorable = true) : e.filed.truthy = e.truthy := by
  cases e with
  | raw d => rfl
  | _ =>
    obtain ⟨f, fs, hr⟩ := Expr.record_of_isProper h
    rw [filed, hr]
    rfl

theorem Operator.isLegible_printed (ht : op.isTyped = true) (hs : op.isStorable = true) :
    op.filed.listed.isLegible = op.isUnconditional := by
  have hcond : ∀ c : Option Expr, c.all Expr.isStorable = true →
      ((c.map Expr.filed).map Expr.listed).all (fun e ↦ !e.truthy || e.isLegible) =
        c.all fun e ↦ !e.truthy := by
    rintro (_ | e) he
    · rfl
    · have hraw : e.filed.listed.isLegible = false := rfl
      simp [hraw, Expr.truthy_filed he]
  cases op with
  | select names c | sort _ _ c =>
    refine hcond c ?_
    cases c with
    | none => rfl
    | some e => exact hs
  | loose | bare => cases ht
  | _ => rfl

theorem Operator.columns_listed (op : Operator) (ss : List (List String)) :
    op.listed.columns ss = op.columns ss := by
  cases op with
  | filter | sort | withColumn | window => unfold columns; split <;> simp_all [listed]
  | _ => rfl

theorem Operator.isVacant_listed (op : Operator) (vs : List Bool) :
    op.listed.isVacant sources vs = op.isVacant sources vs := by
  cases op with
  | filter => unfold isVacant; split <;> simp_all [listed]
  | _ => rfl

namespace Plan

theorem columns_printed (p : Plan) : p.printed.columns = p.columns := by
  induction p with
  | node m op is ih =>
    rw [printed_node, columns_node, columns_node, Operator.columns_listed, Operator.columns_filed,
      List.map_map]
    exact congrArg _ (List.map_congr_left ih)

theorem isVacant_printed (p : Plan) : p.printed.isVacant sources = p.isVacant sources := by
  induction p with
  | node m op is ih =>
    rw [printed_node, isVacant_node, isVacant_node, Operator.isVacant_listed,
      Operator.isVacant_filed, List.map_map]
    exact congrArg _ (List.map_congr_left ih)

theorem leftmostSource_printed (p : Plan) : leftmostSource p.printed = leftmostSource p := by
  induction p with
  | node m op is ih =>
    rw [printed_node]
    cases op with
    | source => rfl
    | _ =>
      cases is with
      | nil => rfl
      | cons i is => exact ih i (by simp)

theorem widens_printed (p : Plan) : Widens sources p p.printed :=
  ⟨(columns_printed p).symm ▸ List.Subset.refl _, fun h ↦ (isVacant_printed p).trans h,
    leftmostSource_printed p⟩

end Plan

theorem distance_listed (frame : Datum) : distance frame.listed = distance frame := by
  unfold distance
  rw [Datum.truthy_listed]
  cases frame <;> rfl

theorem unframed_listed (frame : Datum) :
    (frame.listed.truthy && frame.listed != .text runningFrame) =
      (frame.truthy && frame != .text runningFrame) := by
  rw [Datum.truthy_listed]
  cases frame <;> rfl

theorem windowSuits_listed {s partitionBy : List String} {func : String} {input : Option String}
    {frame : Datum} : windowSuits s func input partitionBy frame.listed ↔
      windowSuits s func input partitionBy frame := by
  unfold windowSuits
  rw [distance_listed, unframed_listed]

theorem Operator.Suits.listed (h : op.Suits sources is) : op.listed.Suits sources is := by
  have hcond : ∀ {c : Option Expr} {s : List String},
      (∀ e ∈ c, e.truthy = true → e.columns ⊆ s) →
        ∀ e ∈ c.map Expr.listed, e.truthy = true → e.columns ⊆ s := by
    intro c s hc e he ht
    obtain ⟨a, ha, rfl⟩ := Option.mem_map.mp he
    rw [Expr.truthy_listed] at ht
    rw [Expr.columns_listed]
    exact hc a ha ht
  match op, is, h with
  | .select _ c, [p], ⟨hne, hnames, hc⟩ => exact ⟨hne, hnames, hcond hc⟩
  | .sort _ _ c, [p], ⟨hne, hkeys, hc⟩ => exact ⟨hne, hkeys, hcond hc⟩
  | .filter e, [p], ⟨hne, he⟩ => exact ⟨hne, e.columns_listed.symm ▸ he⟩
  | .withColumn _ e, [p], he =>
    rw [Operator.listed, Suits, e.columns_listed]
    exact he
  | .window .., [p], ⟨hs, ho⟩ => exact ⟨windowSuits_listed.mpr hs, ho⟩
  | .source .., _, h | .join .., _, h | .groupBy .., _, h | .aggregate _, _, h | .limit .., _, h
  | .union, _, h | .pivot .., _, h | .melt .., _, h => exact h

theorem Operator.Agrees.printed (h : op.Agrees is) :
    op.filed.listed.Agrees (is.map Plan.printed) := by
  cases op with
  | union =>
    match is, h with
    | [p, q], h => exact (Plan.columns_printed p).trans (h.trans (Plan.columns_printed q).symm)
    | [], _ | [_], _ | _ :: _ :: _ :: _, _ => trivial
  | _ => trivial

/-- A plan that was written as text can be laid out where the plan can, just when no condition is
given in it. -/
theorem Plan.drawable_printed (hb : p.Built) (hs : p.isStorable = true) (h : p.Drawable sources) :
    p.printed.Drawable sources ↔ p.All fun op _ ↦ op.isUnconditional = true := by
  induction p with
  | node m op is ih =>
    obtain ⟨⟨ht, -⟩, hbs⟩ := built_node.mp hb
    rw [isStorable_node] at hs
    obtain ⟨⟨hsuits, -, hagrees⟩, his⟩ := all_node.mp h
    have hsuits' : op.filed.listed.Suits sources (is.map printed) :=
      hsuits.filed.listed.mono
        (List.forall₂_map_right_iff.mpr (List.forall₂_same.mpr fun i _ ↦ widens_printed i))
    have hagrees' := hagrees.printed
    rw [printed_node, Drawable, all_node, all_node, Operator.isLegible_printed ht hs.1]
    simp only [hsuits', hagrees', true_and, and_true, List.forall_mem_map]
    exact and_congr_right fun _ ↦ forall₂_congr fun i hi ↦ ih i hi (hbs i hi) (hs.2 i hi) (his i hi)

namespace Layout

open Formula
open Plan (marksOf)

variable {counter : Nat} {s t : Progress}

theorem extra_of_falsy {b : Block} {c : Option Expr} (h : c.all (fun e ↦ !e.truthy) = true) :
    extra b c = .ok [] := by
  cases c with
  | none => rfl
  | some e =>
    have he : e.truthy = false := by simpa using h
    simp [extra, he]

theorem windowTerm_listed {w : WindowFrame} {func : String} {input : Option String}
    {frame : Datum} : Outcome.Ensures (windowTerm w func input frame) fun f ↦
      windowTerm w func input frame.listed = .ok f := by
  unfold windowTerm
  split
  · exact .ok rfl
  · exact .ok rfl
  · rw [shifted, shifted, distance_listed]
    exact fun f hf ↦ hf
  · rw [shifted, shifted, distance_listed]
    exact fun f hf ↦ hf
  · unfold accumulated
    split
    · exact .error _
    · rw [unframed_listed]
      split
      · exact .error _
      · exact fun f hf ↦ hf

theorem placeNode_printed (ht : op.isTyped = true) (hs : op.isStorable = true)
    (hu : op.isUnconditional = true) (hv : op.isSettled = true) (bs : List Block) :
    Outcome.Ensures (placeNode sources counter op is bs) fun P ↦
      placeNode sources counter op.filed.listed (is.map Plan.printed) bs = .ok P := by
  have hcond : ∀ {c : Option Expr}, c.all Expr.isStorable = true →
      c.all (fun e ↦ !e.truthy) = true →
        ((c.map Expr.filed).map Expr.listed).all (fun e ↦ !e.truthy) = true := by
    rintro (_ | e) he hc
    · rfl
    · simpa [Expr.truthy_filed he] using hc
  intro P hP
  cases op with
  | loose | bare => cases ht
  | filter => cases hu
  | select names c =>
    have hstore : c.all Expr.isStorable = true := by cases c <;> exact hs
    obtain ⟨b, hb, hP⟩ := bind_eq_ok.mp hP
    refine bind_eq_ok.mpr ⟨b, hb, ?_⟩
    simp only [select, extra_of_falsy hu] at hP
    simp only [select, extra_of_falsy (hcond hstore hu)]
    exact hP
  | sort keys cap c =>
    have hstore : c.all Expr.isStorable = true := by cases c <;> exact hs
    obtain ⟨b, hb, hP⟩ := bind_eq_ok.mp hP
    refine bind_eq_ok.mpr ⟨b, hb, ?_⟩
    simp only [sort, extra_of_falsy hu] at hP
    simp only [sort, extra_of_falsy (hcond hstore hu)]
    exact hP
  | withColumn name e =>
    cases e with
    | raw d =>
      have hd : d.listed = d := by simpa [Operator.isSettled] using hv
      simp only [Operator.filed, Expr.filed_raw, Operator.listed, Expr.listed, hd]
      exact hP
    | _ => cases hv
  | pivot index columns values aggfunc =>
    have hvalues : ∀ column, knownValues sources (is.map Plan.printed).head? column =
        knownValues sources is.head? column := by
      intro column
      cases is with
      | nil => rfl
      | cons i is => simp only [knownValues, List.map_cons, List.head?_cons, Option.bind_some,
          Plan.leftmostSource_printed]
    simp only [Operator.filed, Operator.listed, placeNode, hvalues] at hP ⊢
    exact hP
  | window func input output partitionBy orderBy frame =>
    obtain ⟨b, hb, hP⟩ := bind_eq_ok.mp hP
    refine bind_eq_ok.mpr ⟨b, hb, ?_⟩
    obtain ⟨copies, hcopies, hP⟩ := bind_eq_ok.mp hP
    obtain ⟨term, hterm, hP⟩ := bind_eq_ok.mp hP
    refine bind_eq_ok.mpr ⟨copies, hcopies, bind_eq_ok.mpr ⟨term, ?_, hP⟩⟩
    exact windowTerm_listed term hterm
  | _ => exact hP

structure Progress.Same (s t : Progress) : Prop where
  edits : s.edits = t.edits
  counter : s.counter = t.counter
  blocks : s.blocks = t.blocks

theorem Progress.Same.add (h : s.Same t) (m m' : Option Nat) (P : Placement) :
    (s.add m P).Same (t.add m' P) :=
  ⟨by simp [Progress.add, h.edits], by simp [Progress.add, h.counter],
    by simp [Progress.add, h.blocks]⟩

/-- Whether a plan none of whose marks has been met is laid out as it is when it was written as
text. -/
def Repeats (sources : Sources) (p : Plan) : Prop :=
  ∀ s t, s.Same t → (∀ x ∈ s.shared, x.1 ∉ marksOf p.occurrences) →
    Outcome.Ensures (placePlan sources p s) fun x ↦
      (∃ y, placePlan sources p.printed t = .ok y ∧ y.1 = x.1 ∧ x.2.Same y.2) ∧
        ∀ z ∈ x.2.shared, z ∈ s.shared ∨ z.1 ∈ marksOf p.occurrences

theorem placeInputs_repeats (his : ∀ i ∈ is, Repeats sources i)
    (hnodup : (marksOf (is.flatMap Plan.occurrences)).Nodup) (h : s.Same t)
    (hnew : ∀ x ∈ s.shared, x.1 ∉ marksOf (is.flatMap Plan.occurrences)) :
    Outcome.Ensures (placeInputs sources is s) fun x ↦
      (∃ y, placeInputs sources (is.map Plan.printed) t = .ok y ∧ y.1 = x.1 ∧ x.2.Same y.2) ∧
        ∀ z ∈ x.2.shared, z ∈ s.shared ∨ z.1 ∈ marksOf (is.flatMap Plan.occurrences) := by
  induction is generalizing s t with
  | nil => exact .ok ⟨⟨([], t), rfl, rfl, h⟩, fun z hz ↦ .inl hz⟩
  | cons i is ih =>
    obtain ⟨hi, his⟩ := List.forall_mem_cons.mp his
    rw [List.flatMap_cons, Plan.marksOf_append] at hnodup hnew ⊢
    obtain ⟨hnodups, -, hapart⟩ := List.nodup_append'.mp hnodup
    rw [placeInputs]
    refine (hi s t h fun x hx hk ↦ hnew x hx (List.mem_append_right _ hk)).bind ?_
    rintro ⟨b, s'⟩ ⟨⟨⟨b', t'⟩, hb, rfl, h'⟩, hshared⟩
    have hnew' : ∀ x ∈ s'.shared, x.1 ∉ marksOf (is.flatMap Plan.occurrences) := by
      intro x hx hk
      rcases hshared x hx with hold | hmark
      · exact hnew x hold (List.mem_append_left _ hk)
      · exact hapart hk hmark
    refine (ih his hnodups h' hnew').bind ?_
    rintro ⟨bs, s''⟩ ⟨⟨⟨bs', t''⟩, hbs, rfl, h''⟩, hshared'⟩
    refine .ok ⟨⟨(b' :: bs', t''), ?_, rfl, h''⟩, fun z hz ↦ ?_⟩
    · rw [List.map_cons, placeInputs]
      exact bind_eq_ok.mpr ⟨_, hb, bind_eq_ok.mpr ⟨_, hbs, rfl⟩⟩
    · rw [List.mem_append]
      rcases hshared' z hz with hold | hmark
      · exact (hshared z hold).imp_right .inr
      · exact .inr (.inl hmark)

/-- A plan without expressions and shared nodes is laid out as it was before it was written as
text. -/
theorem placePlan_repeats (hb : p.Built) (hs : p.isStorable = true)
    (hall : p.All fun op _ ↦ op.isUnconditional = true ∧ op.isSettled = true)
    (hnodup : (marksOf p.occurrences).Nodup) : Repeats sources p := by
  induction p with
  | node m op is ih =>
    obtain ⟨⟨ht, -⟩, hbs⟩ := Plan.built_node.mp hb
    rw [Plan.isStorable_node] at hs
    obtain ⟨⟨hu, hv⟩, his⟩ := Plan.all_node.mp hall
    have hocc : marksOf (Plan.occurrences (.node m op is)) =
        marksOf (is.flatMap Plan.occurrences) ++ m.toList := by
      rw [Plan.occurrences_node, ← List.singleton_append, Plan.marksOf_append]
      cases m <;> rfl
    rw [hocc] at hnodup
    obtain ⟨hnodups, -, hapart⟩ := List.nodup_append'.mp hnodup
    have hrepeats : ∀ i ∈ is, Repeats sources i := by
      intro i hi
      refine ih i hi (hbs i hi) (hs.2 i hi) (his i hi) (hnodups.sublist ?_)
      exact ((List.sublist_flatten_of_mem (List.mem_map_of_mem hi)).filterMap _).reverse
    intro s t h hnew
    rw [hocc] at hnew ⊢
    -- the mark was not met so far, so the first run does not take the node for a known one
    have hfind : s.find m = none := by
      cases m with
      | none => rfl
      | some k =>
        refine List.lookup_eq_none_iff.mpr fun x hx ↦ ?_
        simp only [bne_iff_ne]
        rintro rfl
        exact hnew x hx (List.mem_append_right _ (by simp))
    rw [placePlan, hfind]
    refine (placeInputs_repeats hrepeats hnodups h fun x hx hk ↦
      hnew x hx (List.mem_append_left _ hk)).bind ?_
    rintro ⟨bs, s'⟩ ⟨⟨⟨bs', t'⟩, hbs', rfl, h'⟩, hshared⟩
    intro y hy
    obtain ⟨P, hP, hy⟩ := bind_eq_ok.mp hy
    obtain rfl := Except.ok.inj hy
    have hP' := placeNode_printed ht hs.1 hu hv _ P hP
    refine ⟨⟨(P.block, t'.add none P), ?_, rfl, h'.add m none P⟩, fun z hz ↦ ?_⟩
    · rw [Plan.printed_node, placePlan]
      exact bind_eq_ok.mpr ⟨_, hbs', bind_eq_ok.mpr ⟨P, h'.counter ▸ hP', rfl⟩⟩
    · cases m with
      | none => simpa using hshared z hz
      | some k =>
        rw [List.mem_append]
        rcases List.mem_cons.mp hz with rfl | hz
        · exact .inr (.inr (by simp))
        · exact (hshared z hz).imp_right .inl

theorem Run.created {nodes : List Plan} {parts : List Part} (h : Run s nodes parts) :
    s.edits.filterMap Edit.created = parts.map Part.name := by
  have hchained := h.chained
  rw [h.edits]
  clear h
  generalize ([] : List String) = known at hchained
  induction parts generalizing known with
  | nil => rfl
  | cons p ps ih =>
    have hbody : p.body.filterMap Edit.created = [] :=
      List.filterMap_eq_nil_iff.mpr fun e he ↦ (hchained.1 e he).created_eq
    rw [List.flatMap_cons, List.filterMap_append, ih _ hchained.2, Part.edits, List.filterMap_cons,
      hbody]
    rfl

theorem Run.lt_counter {nodes : List Plan} {parts : List Part} (h : Run s nodes parts) {n : Nat} :
    n < s.counter ↔ ∃ kind, ∃ name ∈ s.written.filterMap Edit.created, Belongs kind n name := by
  rw [Progress.written, written_created, h.created]
  constructor
  · intro hn
    have hn : n < nodes.length := h.counter ▸ hn
    have hmem : (nodes.get ⟨n, hn⟩, n) ∈ nodes.zipIdx := by simp [List.mem_zipIdx_iff_getElem?]
    obtain ⟨b, -, hb⟩ := exists_of_forall₂ h.blocks.flip hmem
    exact ⟨_, b.sheet, hb.sheet, hb.belongs⟩
  · rintro ⟨kind, name, hname, hbelongs⟩
    obtain ⟨p, hp, rfl⟩ := List.mem_map.mp hname
    obtain ⟨kind', m, hm, hp⟩ := h.numbered p hp
    exact hbelongs.number_eq hp ▸ hm

end Layout

namespace Plan

theorem mark_printed (p : Plan) : ∀ x ∈ p.printed.occurrences, x.mark = none := by
  induction p with
  | node m op is ih =>
    rw [printed_node]
    intro x hx
    rcases mem_occurrences_node.mp hx with rfl | ⟨q, hq, hx⟩
    · rfl
    · obtain ⟨i, hi, rfl⟩ := List.mem_map.mp hq
      exact ih i hi x hx

theorem coherent_printed (p : Plan) : p.printed.Coherent where
  same := fun x hx _ _ k hk _ ↦ by simp [mark_printed p x hx] at hk
  below := fun x hx hm ↦ absurd (mark_printed p x hx) hm

theorem length_occurrences_printed (p : Plan) :
    p.printed.occurrences.length = p.occurrences.length := by
  induction p with
  | node m op is ih =>
    rw [printed_node, occurrences_node, occurrences_node, List.length_cons, List.length_cons,
      List.length_flatMap, List.length_flatMap, List.map_map]
    exact congrArg (List.sum · + 1) (List.map_congr_left ih)

theorem objects_printed (p : Plan) :
    p.printed.objects = p.objects ↔ (marksOf p.occurrences).Nodup := by
  have hnone : unmarkedOf p.printed.occurrences = p.printed.occurrences :=
    List.filter_eq_self.mpr fun x hx ↦ by simp [mark_printed p x hx]
  have hmarks : marksOf p.printed.occurrences = [] := by
    simpa [marksOf] using mark_printed p
  rw [objects, objects, hmarks, hnone, length_occurrences_printed, length_eq_marks_add_unmarked,
    List.dedup_nil, List.length_nil, Nat.zero_add, Nat.add_right_cancel_iff, ← List.dedup_eq_self]
  exact eq_comm.trans (List.dedup_sublist _).length_eq

end Plan

namespace Layout

open Plan (marksOf)

variable {s t : Progress}

theorem layOut_eq_ok :
    layOut p sources false = .ok s ↔ ∃ b, placePlan sources p {} = .ok (b, s) := by
  have hplace : layOut p sources false = placePlan sources p {} >>= fun x ↦ .ok x.2 :=
    layOut_eq p sources false
  rw [hplace, bind_eq_ok]
  constructor
  · rintro ⟨⟨b, t⟩, hx, ht⟩
    obtain rfl := Except.ok.inj ht
    exact ⟨b, hx⟩
  · rintro ⟨b, hb⟩
    exact ⟨_, hb, rfl⟩

theorem counter_eq_objects (hb : p.Built) (hc : p.Coherent) (h : layOut p sources false = .ok s) :
    s.counter = p.objects := by
  obtain ⟨q, hq, parts, hrun⟩ := run_of_layOut hb h
  obtain rfl := Except.ok.inj hq
  rw [hrun.counter, hc.enumerates.length]

theorem counter_eq_of_written {q : Plan} (hp : p.Built) (hq : q.Built)
    (hs : layOut p sources false = .ok s) (ht : layOut q sources false = .ok t)
    (h : t.written = s.written) : t.counter = s.counter := by
  obtain ⟨_, -, parts, hrun⟩ := run_of_layOut hp hs
  obtain ⟨_, -, parts', hrun'⟩ := run_of_layOut hq ht
  refine eq_of_forall_lt_iff fun n ↦ ?_
  rw [hrun.lt_counter, hrun'.lt_counter, h]

/-- A plan that can be laid out and whose document is read back from its text up to the form of its
sequences is itself read back from its text. What is read can be laid out just when no condition is
given in the plan. If moreover all computed columns of the plan are plain data, what is written is
the same just when no condition is given and no node is shared. -/
theorem layOut_printed {l : Json.Layout} (hb : p.Built) (hc : p.Coherent) (hs : p.isStorable = true)
    (hl : ∀ d, p.serialize = .ok d → Json.read (Json.write l d) = some d.listed)
    (h : layOut p sources false = .ok s) :
    ∃ text q, p.toJson l = .ok text ∧ Plan.ofJson (.text text) = .ok q ∧
      ((∃ t, layOut q sources false = .ok t) ↔ p.All fun op _ ↦ op.isUnconditional = true) ∧
      ((p.All fun op _ ↦ op.isSettled = true) →
        ((∃ t, layOut q sources false = .ok t ∧ t.written = s.written) ↔
          (p.All fun op _ ↦ op.isUnconditional = true) ∧ (marksOf p.occurrences).Nodup)) := by
  obtain ⟨text, htext, hread⟩ := Plan.ofJson_toJson hb hs hl
  obtain ⟨_, hq, hdraw⟩ := (succeeds_layOut hb hc false).mp ⟨s, h⟩
  obtain rfl := Except.ok.inj hq
  have hbuilt := hb.printed hs
  have hcoherent := p.coherent_printed
  have hsucc : (∃ t, layOut p.printed sources false = .ok t) ↔
      p.All fun op _ ↦ op.isUnconditional = true := by
    refine (succeeds_layOut hbuilt hcoherent false).trans ?_
    simp only [chosen, Bool.false_eq_true, if_false, Except.ok.injEq, exists_eq_left']
    exact Plan.drawable_printed hb hs hdraw
  refine ⟨text, p.printed, htext, hread, hsucc, fun hv ↦ ⟨?_, ?_⟩⟩
  · rintro ⟨t, ht, hwritten⟩
    refine ⟨hsucc.mp ⟨t, ht⟩, p.objects_printed.mp ?_⟩
    rw [← counter_eq_objects hbuilt hcoherent ht, ← counter_eq_objects hb hc h]
    exact counter_eq_of_written hb hbuilt h ht hwritten
  · rintro ⟨hu, hnodup⟩
    have hrepeats : Repeats sources p :=
      placePlan_repeats hb hs (Plan.all_and.mpr ⟨hu, hv⟩) hnodup
    obtain ⟨b, hplace⟩ := layOut_eq_ok.mp h
    obtain ⟨⟨y, hy, -, hsame⟩, -⟩ := hrepeats {} {} ⟨rfl, rfl, rfl⟩ (by simp) _ hplace
    refine ⟨y.2, layOut_eq_ok.mpr ⟨y.1, hy⟩, ?_⟩
    rw [Progress.written, Progress.written, hsame.edits]

def annotated : Plan :=
  let sorted := Plan.node (some 1) (.sort [⟨"a", .desc⟩] none (some (.raw (.int 0))))
    [.node (some 0) (.source "t" (some ["a"]) none) []]
  .node (some 2) (.withColumn "c" (.raw (.text "x"))) [sorted]

theorem built_annotated : annotated.Built := by
  simp [Plan.built_node, annotated, Operator.isTyped, Operator.Accepts,
    Plan.Offers, Plan.schema?, Expr.isFilled, Datum.truthy, Expr.columns]

theorem layOut_printed_annotated :
    let sources : Sources := [("t", .list [.list [.int 1]])]
    annotated.Built ∧ annotated.Coherent ∧ annotated.isStorable = true ∧
      ∃ s text q t, layOut annotated sources false = .ok s ∧ annotated.toJson {} = .ok text ∧
        Plan.ofJson (.text text) = .ok q ∧ layOut q sources false = .ok t ∧
        t.written = s.written := by
  intro sources
  have hjson : ∀ d, annotated.serialize = .ok d → Json.read (Json.write {} d) = some d.listed := by
    intro d hd
    obtain rfl := Except.ok.inj hd
    decide +kernel
  have hnodup : (marksOf annotated.occurrences).Nodup := by decide +kernel
  have hc : annotated.Coherent := .of_nodup hnodup (by decide +kernel)
  obtain ⟨s, hs⟩ : ∃ s, layOut annotated sources false = .ok s :=
    Outcome.succeeds_of_isOk (by decide +kernel)
  obtain ⟨text, q, htext, hq, -, hsame⟩ := layOut_printed built_annotated hc rfl hjson hs
  have hv : annotated.All fun op _ ↦ op.isSettled = true := by
    simp [Plan.All, Plan.AllList, annotated, Operator.isSettled]
  have hu : annotated.All fun op _ ↦ op.isUnconditional = true := by
    simp [Plan.All, Plan.AllList, annotated, Operator.isUnconditional, Expr.truthy, Datum.truthy]
  obtain ⟨t, ht, hwritten⟩ := (hsame hv).mpr ⟨hu, hnodup⟩
  exact ⟨built_annotated, hc, rfl, s, text, q, t, hs, htext, hq, ht, hwritten⟩

def picked : Plan :=
  .node none (.filter (.column "a")) [.node none (.source "t" (some ["a"]) none) []]

/-- The text of a condition is read back as a record, and a record is no condition. -/
theorem layOut_picked : picked.Built ∧ (∃ s, layOut picked [] false = .ok s) ∧
    ∃ text q, picked.toJson {} = .ok text ∧ Plan.ofJson (.text text) = .ok q ∧
      layOut q [] false = .error (.layout (.predicate "dict")) := by
  have hb : picked.Built := by
    simp [Plan.built_node, picked, Operator.isTyped, Operator.Accepts,
      Plan.Offers, Plan.schema?, Expr.isFilled, Expr.columns]
  obtain ⟨text, htext, hread⟩ := Plan.ofJson_toJson (l := {}) hb rfl fun d hd ↦ by
    obtain rfl := Except.ok.inj hd
    decide +kernel
  exact ⟨hb, Outcome.succeeds_of_isOk (by decide +kernel), text, _, htext, hread, rfl⟩

-- A computed column is read back as a record as well, and the record is written in its place.
example :
    let p := Plan.node none (.withColumn "b" (.column "a"))
      [.node none (.source "t" (some ["a"]) none) []]
    (layOut p [] false).toOption.map (·.written.map Edit.toDatum) ≠
      (layOut p.printed [] false).toOption.map (·.written.map Edit.toDatum) := by
  decide +kernel

-- A source that is shared is laid out twice after that.
example :
    let source := Plan.node (some 0) (.source "t" (some ["a"]) none) []
    let p := Plan.node (some 1) .union [source, source]
    (layOut p [] false).toOption.map (·.counter) = some 2 ∧
      (layOut p.printed [] false).toOption.map (·.counter) = some 3 := by
  decide +kernel

end Layout

end Gridplan
