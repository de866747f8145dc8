import Gridplan.Proofs.Frame.Labels
import Gridplan.Proofs.Layout.Drawable

namespace Gridplan

open Layout (withName)
open Outcome (Ensures)

/-- Whether an operator is no pivot, has data with the columns of its schema if it is a source, and
has the same keys on both sides if it is a join. -/
def Operator.IsNominal : Operator → Prop
  | .source _ schema data => ∃ f, data = some f ∧ f.labels = (schema.getD []).map .text
  | .join leftOn rightOn _ _ => leftOn = rightOn
  | .pivot _ _ _ _ => False
  | _ => True

/-- Whether the names of an operator do not collide over inputs with given columns: a projection
finds each of its columns once, the sides of a join have nothing in common but keys, aggregations go
under different names, and a window under a new one. -/
def Operator.IsTidy : Operator → List (List String) → Prop
  | .select names _, [s] => ∀ n ∈ names, s.count n = 1
  | .join _ rightOn _ _, [l, r] => ∀ n ∈ r, n ∈ l → n ∈ rightOn
  | .groupBy _ aggs _ _, _ | .aggregate aggs, _ => (aggs.map (·.output)).Nodup
  | .window _ _ output _ _ _, [s] => output ∉ s
  | _, _ => True

section Lists

variable {α β : Type} {R : α → β → Prop} {xs : List α} {ys : List β}

theorem eq_singleton_of_forall₂ (h : List.Forall₂ R xs ys) (hlen : some 1 = some ys.length) :
    ∃ x y, xs = [x] ∧ ys = [y] ∧ R x y := by
  obtain ⟨y, rfl⟩ := List.length_eq_one_iff.mp (Option.some.inj hlen).symm
  obtain ⟨x, xs, hxy, hxs, rfl⟩ := List.forall₂_cons_right_iff.mp h
  obtain rfl := List.forall₂_nil_right_iff.mp hxs
  exact ⟨x, y, rfl, rfl, hxy⟩

theorem eq_pair_of_forall₂ (h : List.Forall₂ R xs ys) (hlen : some 2 = some ys.length) :
    ∃ x y x' y', xs = [x, x'] ∧ ys = [y, y'] ∧ R x y ∧ R x' y' := by
  obtain ⟨y, y', rfl⟩ := List.length_eq_two.mp (Option.some.inj hlen).symm
  obtain ⟨x, xs, hxy, hxs, rfl⟩ := List.forall₂_cons_right_iff.mp h
  obtain ⟨x', xs', hxy', hxs', rfl⟩ := List.forall₂_cons_right_iff.mp hxs
  obtain rfl := List.forall₂_nil_right_iff.mp hxs'
  exact ⟨x, y, x', y', rfl, rfl, hxy, hxy'⟩

theorem forall₂_iff_forall {S : α → β → Prop} {P : α → Prop} (h : List.Forall₂ S xs ys)
    (hiff : ∀ x y, S x y → (R x y ↔ P x)) : List.Forall₂ R xs ys ↔ ∀ x ∈ xs, P x := by
  induction h with
  | nil => simp
  | cons hxy _ ih => rw [List.forall₂_cons, List.forall_mem_cons, hiff _ _ hxy, ih]

theorem getLast?_of_forall₂ {x : α} (h : List.Forall₂ R (xs ++ [x]) ys) :
    ∃ y, ys.getLast? = some y ∧ R x y := by
  have hrev : List.Forall₂ R (x :: xs.reverse) ys.reverse := by simpa using List.rel_reverse h
  obtain ⟨y, zs, hxy, -, hys⟩ := List.forall₂_cons_left_iff.mp hrev
  exact ⟨y, by rw [← List.head?_reverse, hys]; rfl, hxy⟩

theorem flatMap_replicate_eq {ns : List String} {c : String → Nat} (h : ∀ n ∈ ns, 0 < c n) :
    (ns.flatMap fun n ↦ List.replicate (c n) n) = ns ↔ ∀ n ∈ ns, c n = 1 := by
  constructor
  · intro heq
    by_contra hne
    obtain ⟨n, hn, hc⟩ : ∃ n ∈ ns, c n ≠ 1 := by simpa using hne
    have hpos := h n hn
    have hlt : (ns.map fun _ ↦ 1).sum < (ns.map c).sum :=
      List.sum_lt_sum _ _ (fun m hm ↦ h m hm) ⟨n, hn, by omega⟩
    have hlen : (ns.map c).sum = ns.length := by
      simpa [List.length_flatMap] using congrArg List.length heq
    rw [hlen] at hlt
    simp at hlt
  · intro hone
    have hsingle : ∀ n ∈ ns, List.replicate (c n) n = [n] := fun n hn ↦ by rw [hone n hn]; rfl
    rw [List.flatMap_congr hsingle]
    exact List.flatMap_singleton' ns

end Lists

namespace Layout

theorem withName_eq_append {ns : List String} {n : String} :
    withName ns n = ns ++ [n] ↔ n ∉ ns := by
  unfold withName
  split
  · next h => simpa using h
  · next h => simpa using h

theorem length_foldl_withName_le (init ns : List String) :
    (ns.foldl withName init).length ≤ init.length + ns.length := by
  induction ns generalizing init with
  | nil => exact le_rfl
  | cons n ns ih =>
    have hstep : (withName init n).length ≤ init.length + 1 := by
      unfold withName
      split <;> simp
    have := ih (withName init n)
    rw [List.foldl_cons, List.length_cons]
    omega

theorem foldl_withName_eq_append {init ns : List String} (h : init.Nodup) :
    ns.foldl withName init = init ++ ns ↔ (init ++ ns).Nodup := by
  induction ns generalizing init with
  | nil => simpa using h
  | cons n ns ih =>
    rw [List.foldl_cons]
    by_cases hn : n ∈ init
    · -- the name is passed over, so the result is too short
      refine iff_of_false (fun heq ↦ ?_) fun hnodup ↦ ?_
      · have hstep : withName init n = init := if_pos (by simpa using hn)
        have hlen := length_foldl_withName_le init ns
        rw [hstep] at heq
        rw [heq, List.length_append, List.length_cons] at hlen
        omega
      · exact (List.nodup_append'.mp hnodup).2.2 hn (by simp)
    · have hinit : (init ++ [n]).Nodup := List.nodup_append'.mpr ⟨h, by simp, by simpa using hn⟩
      have := ih hinit
      rw [List.append_assoc] at this
      rw [withName_eq_append.mpr hn]
      exact this

end Layout

namespace Frame

theorem withLabel_texts (ns : List String) (n : String) :
    withLabel (ns.map .text) (.text n) = (withName ns n).map .text := by
  rw [withLabel, Datum.isIn_texts, withName]
  split
  · rfl
  · rw [List.map_append]
    rfl

theorem foldl_withLabel_texts (ns : List String) :
    (ns.map .text).foldl withLabel [] = (ns.foldl withName []).map .text := by
  rw [List.foldl_map]
  exact @List.foldl_hom _ _ _ (List.map Datum.text) withName _ ns [] withLabel_texts

theorem filter_same_texts (s : List String) (n : String) :
    (s.map Datum.text).filter (·.same (.text n)) = (List.replicate (s.count n) n).map .text := by
  rw [List.filter_map, ← List.filter_beq]
  exact congrArg _ (List.filter_congr fun m _ ↦ Datum.same_text m n)

theorem labels_select_texts {f : Frame} {names s : List String} (hf : f.labels = s.map .text) :
    Ensures (f.select (names.map .text)) fun g ↦
      g.labels = names.map .text ↔ ∀ n ∈ names, s.count n = 1 := by
  refine (labels_select _).mono ?_
  rintro g ⟨hlabels, hin⟩
  have hflat : g.labels = (names.flatMap fun n ↦ List.replicate (s.count n) n).map .text := by
    rw [hlabels, hf, List.flatMap_map, List.map_flatMap]
    exact List.flatMap_congr fun n _ ↦ filter_same_texts s n
  have hpos : ∀ n ∈ names, 0 < s.count n := by
    intro n hn
    have hmem := hin (.text n) (List.mem_map_of_mem hn)
    rw [hf, Datum.isIn_texts] at hmem
    exact List.count_pos_iff.mpr (by simpa using hmem)
  rw [hflat, Datum.map_text_inj]
  exact flatMap_replicate_eq hpos

end Frame

namespace Operator

variable {op : Operator} {ss : List (List String)} {fs : List Frame}

theorem map_outputs (aggs : List Aggregation) :
    (outputs aggs).map (·.1) = (aggs.map (·.output)).map .text := by
  simp [outputs]

/-- An operator over frames whose labels are the columns of the inputs has its own columns as labels
just when its names do not collide. -/
theorem run_labels (ht : op.isTyped = true) (hn : op.IsNominal)
    (hcount : inputCount? op.kind = some fs.length)
    (h : List.Forall₂ (fun s f ↦ f.labels = s.map .text) ss fs) :
    Ensures (op.run fs) fun f ↦ f.labels = (op.columns ss).map .text ↔ op.IsTidy ss := by
  cases op with
    try
      have hone := eq_singleton_of_forall₂ h hcount
      obtain ⟨s, f, rfl, rfl, hf⟩ := hone
  | source => exact .error _
  | bare => cases hcount
  | loose => cases ht
  | pivot => cases hn
  | select names c =>
    exact (Frame.labels_select_texts hf).bind fun g hg ↦ .ok hg
  | filter e =>
    exact .skip fun q ↦ (Frame.labels_locate q).bind fun g hg ↦
      .ok (iff_of_true (hg.trans hf) trivial)
  | sort keys cap c =>
    exact (Frame.labels_sortBy _).bind fun g hg ↦ .ok (iff_of_true (hg.trans hf) trivial)
  | limit count side =>
    refine .ok (iff_of_true ?_ trivial)
    cases side <;> exact (Frame.labels_pick _).trans hf
  | withColumn name e =>
    have hset : ∀ c : Column, (f.setColumn (.text name) c).labels = (withName s name).map .text :=
      fun c ↦ by rw [Frame.labels_setColumn, hf, Frame.withLabel_texts]
    cases e with
    | raw d => exact .error _
    | _ => exact .skip fun q ↦ .skip fun c ↦ .ok (iff_of_true (hset c) trivial)
  | groupBy keys aggs sortKeys cap =>
    refine (Frame.labels_groupBy _ _ _).mono fun g hg ↦ ?_
    rw [hg, map_outputs, Frame.foldl_withLabel_texts, ← List.map_append, Datum.map_text_inj]
    exact List.append_right_inj _ |>.trans (Layout.foldl_withName_eq_append List.nodup_nil)
  | aggregate aggs =>
    refine (Frame.labels_aggregate _).mono fun g hg ↦ ?_
    rw [hg, map_outputs, Frame.foldl_withLabel_texts, Datum.map_text_inj]
    exact Layout.foldl_withName_eq_append List.nodup_nil
  | join leftOn rightOn kind suffixes =>
    obtain rfl : leftOn = rightOn := hn
    obtain ⟨s, f, t, g, rfl, rfl, hf, hg⟩ := eq_pair_of_forall₂ h hcount
    exact Frame.labels_join kind suffixes hf hg
  | union =>
    obtain ⟨s, f, t, g, rfl, rfl, hf, hg⟩ := eq_pair_of_forall₂ h hcount
    exact Frame.labels_union.mono fun k hk ↦ iff_of_true (hk.trans hf) trivial
  | melt idVars valueVars varName valueName =>
    refine (Frame.labels_melt _ _ _ _).mono fun g hg ↦ iff_of_true ?_ trivial
    rw [hg, columns, List.map_append]
    rfl
  | window func input output partitionBy orderBy frame =>
    refine (Frame.labels_window _).mono fun g hg ↦ ?_
    rw [hg, hf, Frame.withLabel_texts, Datum.map_text_inj]
    exact Layout.withName_eq_append

end Operator

namespace Plan

variable {m : Option Nat} {op : Operator} {is : List Plan} {p : Plan} {f : Frame}

theorem runList_eq (is : List Plan) : runList is = is.mapM run := by
  induction is with
  | nil => rfl
  | cons p ps ih =>
    rw [runList, ih, List.mapM_cons]

theorem run_node (h : run (.node m op is) = .ok f) :
    (∃ id schema, op = .source id schema (some f)) ∨
      ∃ fs, List.Forall₂ (fun i g ↦ i.run = .ok g) is fs ∧
        Operator.inputCount? op.kind = some fs.length ∧ op.run fs = .ok f := by
  unfold run at h
  split at h
  · cases h
  · next id schema data =>
    obtain rfl := Except.ok.inj h
    exact .inl ⟨id, schema, rfl⟩
  · split at h
    · next hcount =>
      obtain ⟨fs, hfs, h⟩ := Outcome.bind_eq_ok.mp h
      rw [runList_eq] at hfs
      have hruns := Ensures.mapM_forall₂ (fun i _ g hg ↦ hg) fs hfs
      exact .inr ⟨fs, hruns, hruns.length_eq ▸ hcount, h⟩
    · cases h

def Labelled (p : Plan) : Prop := ∃ f, p.run = .ok f ∧ f.labels = p.columns.map .text

theorem labelled_node (ht : op.isTyped = true) (hn : op.IsNominal) {fs : List Frame}
    (hcount : Operator.inputCount? op.kind = some fs.length)
    (hfs : List.Forall₂ (fun i g ↦ i.run = .ok g) is fs) (hrun : op.run fs = .ok f)
    (h : run (.node m op is) = .ok f) (his : ∀ i ∈ is, i.Labelled) :
    (node m op is).Labelled ↔ op.IsTidy (is.map columns) := by
  have hlabels : List.Forall₂ (fun s g ↦ g.labels = s.map .text) (is.map columns) fs := by
    refine List.forall₂_map_left_iff.mpr (((List.forall₂_and_left _ _).mpr ⟨his, hfs⟩).imp ?_)
    rintro i g ⟨⟨g', hg', hlabels⟩, hg⟩
    rwa [Except.ok.inj (hg.symm.trans hg')]
  have hiff := Operator.run_labels ht hn hcount hlabels f hrun
  rw [← columns_node m] at hiff
  rw [← hiff]
  constructor
  · rintro ⟨g, hg, hlabels⟩
    rwa [Except.ok.inj (h.symm.trans hg)]
  · exact fun hlabels ↦ ⟨f, h, hlabels⟩

theorem labelled_iff_tidy (hb : p.Built) (hn : p.All fun op _ ↦ op.IsNominal)
    (h : p.run = .ok f) :
    (∀ n ∈ p.occurrences, n.Labelled) ↔ p.All fun op is ↦ op.IsTidy (is.map columns) := by
  induction p generalizing f with
  | node m op is ih =>
    obtain ⟨⟨ht, ha⟩, hbs⟩ := built_node.mp hb
    obtain ⟨hop, hns⟩ := all_node.mp hn
    rw [all_node]
    rcases run_node h with ⟨id, schema, rfl⟩ | ⟨fs, hfs, hcount, hrun⟩
    · obtain rfl : is = [] := ha
      obtain ⟨data, hdata, hlabels⟩ := hop
      obtain rfl := Option.some.inj hdata
      refine iff_of_true (fun n hn ↦ ?_) ⟨trivial, by simp⟩
      obtain rfl : n = _ := by simpa [mem_occurrences_node] using hn
      exact ⟨f, h, hlabels⟩
    · have hin : ∀ i ∈ is, (∀ n ∈ i.occurrences, n.Labelled) ↔
          i.All fun op is ↦ op.IsTidy (is.map columns) := by
        intro i hi
        obtain ⟨g, -, hg⟩ := exists_of_forall₂ hfs.flip hi
        exact ih i hi (hbs i hi) (hns i hi) hg
      have hself := labelled_node ht hop hcount hfs hrun h
      constructor
      · intro hall
        have hbelow : ∀ i ∈ is, ∀ n ∈ i.occurrences, n.Labelled := fun i hi n hn ↦
          hall n (mem_occurrences_node.mpr (.inr ⟨i, hi, hn⟩))
        refine ⟨(hself fun i hi ↦ ?_).mp (hall _ (mem_occurrences_self _)),
          fun i hi ↦ (hin i hi).mp (hbelow i hi)⟩
        exact hbelow i hi i (mem_occurrences_self i)
      · rintro ⟨htidy, hbelow⟩ n hn
        have hbelow := fun i hi ↦ (hin i hi).mpr (hbelow i hi)
        rcases mem_occurrences_node.mp hn with rfl | ⟨i, hi, hn⟩
        · exact (hself fun i hi ↦ hbelow i hi i (mem_occurrences_self i)).mpr htidy
        · exact hbelow i hi n hn

end Plan

namespace Layout

open Plan (marksOf finished finishedList columns)

variable {sources : Sources} {s : Progress} {root p : Plan} {is nodes : List Plan} {f : Frame}

theorem layOut_lists (hb : p.Built) (hc : p.Coherent) (h : layOut p sources false = .ok s) :
    List.Forall₂ (fun n b ↦ b.schema = n.columns) (p.finished []) s.blocks := by
  obtain ⟨q, hq, hmatches⟩ := matches_of_layOut hb hc h
  obtain rfl := Except.ok.inj hq
  exact hmatches.imp fun _ _ h ↦ h.schema

/-- For a plan without pivots whose sources have data with the columns of their schemas and whose
joins have the same keys on both sides: if it can be run and laid out, the frames of its nodes have
the labels under which the nodes are laid out exactly when no names collide. The frame of the whole
plan then has the labels of the last block. -/
theorem layOut_labelled (hb : p.Built) (hc : p.Coherent) (hn : p.All fun op _ ↦ op.IsNominal)
    (hf : p.run = .ok f) (h : layOut p sources false = .ok s) :
    (List.Forall₂ (fun n b ↦ ∃ g, n.run = .ok g ∧ g.labels = b.schema.map .text)
        (p.finished []) s.blocks ↔ p.All fun op is ↦ op.IsTidy (is.map columns)) ∧
      ((p.All fun op is ↦ op.IsTidy (is.map columns)) →
        ∃ b, s.blocks.getLast? = some b ∧ f.labels = b.schema.map .text) := by
  have hlists := layOut_lists hb hc h
  have hlabelled : (∀ n ∈ p.finished [], n.Labelled) ↔
      p.All fun op is ↦ op.IsTidy (is.map columns) := by
    rw [← Plan.labelled_iff_tidy hb hn hf]
    exact ⟨fun hl n hn ↦ hl n (hc.mem_finished hn),
      fun hl n hn ↦ hl n (hc.enumerates.reached n hn)⟩
  have hblocks : List.Forall₂ (fun n b ↦ ∃ g, n.run = .ok g ∧ g.labels = b.schema.map .text)
      (p.finished []) s.blocks ↔ ∀ n ∈ p.finished [], n.Labelled := by
    refine forall₂_iff_forall hlists fun n b hnb ↦ ?_
    rw [hnb, Plan.Labelled]
  refine ⟨hblocks.trans hlabelled, fun htidy ↦ ?_⟩
  obtain ⟨m, op, is⟩ := p
  have hlast := hblocks.mpr (hlabelled.mpr htidy)
  rw [finished, if_neg (by cases m <;> simp)] at hlast
  obtain ⟨b, hb, g, hg, hlabels⟩ := getLast?_of_forall₂ hlast
  obtain rfl := Except.ok.inj (hf.symm.trans hg)
  exact ⟨b, hb, hlabels⟩

def keyed (mark : Nat) (id name : String) : Plan :=
  .node (some mark) (.source id (some ["k", name])
    (some ⟨[(.text "k", .ints [1, 2]), (.text name, .ints [3, 4])], [0, 1]⟩)) []

def linked (name name' : String) : Plan :=
  .node (some 2) (.join ["k"] ["k"] .inner (some "_x", some "_y"))
    [keyed 0 "s" name, keyed 1 "t" name']

def tallied : Plan :=
  .node (some 3) (.groupBy ["k"] [⟨"total", "sum", "w"⟩] [] none) [linked "v" "w"]

theorem layOut_labelled_tallied : tallied.Built ∧ tallied.Coherent ∧
    (tallied.All fun op _ ↦ op.IsNominal) ∧ ∃ f s, tallied.run = .ok f ∧
      layOut tallied [] false = .ok s ∧
      List.Forall₂ (fun n b ↦ ∃ g, n.run = .ok g ∧ g.labels = b.schema.map .text)
        (tallied.finished []) s.blocks ∧
      ∃ b, s.blocks.getLast? = some b ∧ f.labels = b.schema.map .text := by
  have hb : tallied.Built := by
    simp [Plan.built_node, tallied, linked, keyed, Operator.isTyped,
      Operator.Accepts, Plan.Offers, Plan.schema?]
  have hc : tallied.Coherent := .of_nodup (by decide +kernel) (by decide +kernel)
  have hn : tallied.All fun op _ ↦ op.IsNominal := by
    simp [Plan.all_node, tallied, linked, keyed, Operator.IsNominal, Frame.labels]
  have ht : tallied.All fun op is ↦ op.IsTidy (is.map columns) := by
    simp [Plan.all_node, tallied, linked, keyed, Operator.IsTidy, columns,
      Operator.columns]
  obtain ⟨f, hf⟩ := Outcome.succeeds_of_isOk (x := tallied.run) (by decide +kernel)
  obtain ⟨s, hs⟩ := Outcome.succeeds_of_isOk (x := layOut tallied [] false) (by decide +kernel)
  obtain ⟨hiff, hlast⟩ := layOut_labelled hb hc hn hf hs
  exact ⟨hb, hc, hn, f, s, hf, hs, hiff.mpr ht, hlast ht⟩

/-- A join of two sources that have more than the key in common is laid out with both columns under
the one name, and has them under different labels when it is run. -/
theorem layOut_linked : let p := linked "v" "v"
    p.Built ∧ p.Coherent ∧ (p.All fun op _ ↦ op.IsNominal) ∧ ∃ f s b, p.run = .ok f ∧
      layOut p [] false = .ok s ∧ s.blocks.getLast? = some b ∧
      b.schema = ["k", "v", "v"] ∧ f.labels = ["k", "v_x", "v_y"].map .text := by
  refine ⟨?_, .of_nodup (by decide +kernel) (by decide +kernel), ?_, ?_⟩
  · simp [Plan.built_node, linked, keyed, Operator.isTyped,
      Operator.Accepts, Plan.Offers, Plan.schema?]
  · simp [Plan.all_node, linked, keyed, Operator.IsNominal, Frame.labels]
  · obtain ⟨f, hf, hlabels⟩ := Outcome.exists_of_any (x := (linked "v" "v").run)
      (P := fun f ↦ f.labels = ["k", "v_x", "v_y"].map .text) (by decide +kernel)
    obtain ⟨s, hs, hlast⟩ := Outcome.exists_of_any (x := layOut (linked "v" "v") [] false)
      (P := fun s ↦ s.blocks.getLast?.map (·.schema) = some ["k", "v", "v"]) (by decide +kernel)
    obtain ⟨b, hb, hschema⟩ := Option.map_eq_some_iff.mp hlast
    exact ⟨f, s, b, hf, hs, hb, hschema, hlabels⟩

end Layout

end Gridplan
