import Gridplan.Plan.Run
import Gridplan.Proofs.Outcome
import Gridplan.Proofs.Plan.Nodes

namespace Gridplan

namespace Datum

@[simp] theorem same_text (s t : String) : (text s).same (.text t) = (s == t) := by
  rw [same]

theorem isIn_texts (n : String) (ns : List String) :
    (text n).isIn (ns.map .text) = ns.contains n := by
  rw [isIn, List.any_map, List.contains_eq_any_beq]
  refine List.any_congr rfl fun t ↦ ?_
  rw [Function.comp_apply, same_text, BEq.comm]

theorem map_text_inj {xs ys : List String} : xs.map text = ys.map text ↔ xs = ys :=
  List.map_inj_right fun _ _ h ↦ text.inj h

end Datum

namespace Frame

open Outcome (Ensures)

variable {f l r : Frame}

@[simp] theorem labels_pick (rows : List Nat) : (f.pick rows).labels = f.labels := by
  simp [labels, pick]

@[simp] theorem labels_renumber : f.renumber.labels = f.labels := rfl

def withLabel (ls : List Label) (l : Label) : List Label := if l.isIn ls then ls else ls ++ [l]

theorem labels_setColumn (l : Label) (c : Column) :
    (f.setColumn l c).labels = withLabel f.labels l := by
  have hany : l.isIn f.labels = f.columns.any (·.1.same l) := List.any_map
  rw [withLabel, hany, setColumn]
  split
  · rw [labels, List.map_map]
    refine List.map_congr_left fun p _ ↦ ?_
    rw [Function.comp_apply]
    split <;> rfl
  · rw [labels, List.map_append]
    rfl

theorem labels_named (names : List Datum) :
    Ensures (f.named names) fun g ↦ g.labels = f.labels :=
  .skip fun _ ↦ .ok (labels_pick _)

theorem labels_locateBy (c : Column) : Ensures (f.locateBy c) fun g ↦ g.labels = f.labels := by
  unfold locateBy
  split
  · exact .ok (labels_pick _)
  · split
    · exact .ok (labels_pick _)
    · split
      · exact .error _
      · exact labels_named _
  · exact labels_named _

theorem labels_locate (q : Quantity) : Ensures (f.locate q) fun g ↦ g.labels = f.labels := by
  unfold locate
  split
  · exact labels_locateBy _
  · split
    · split
      · exact .ok (labels_pick _)
      · split
        · exact .ok (labels_pick _)
        · exact .error _
    · exact labels_named _
  · exact .error _
  · exact .error _
  · exact .skip fun _ ↦ .error _

theorem labels_sortBy (keys : List (Label × Direction)) :
    Ensures (f.sortBy keys) fun g ↦ g.labels = f.labels :=
  .skip fun _ ↦ .ok (labels_pick _)

theorem labels_window (w : WindowSpec) :
    Ensures (f.window w) fun g ↦ g.labels = withLabel f.labels w.output :=
  .skip fun _ ↦ .ok (by simp [sortIndex, labels_setColumn])

theorem length_of_sameList {xs ys : List Datum} (h : Datum.sameList xs ys = true) :
    xs.length = ys.length := by
  induction xs generalizing ys with
  | nil =>
    cases ys with
    | nil => rfl
    | cons y ys => simp [Datum.sameList] at h
  | cons x xs ih =>
    cases ys with
    | nil => simp [Datum.sameList] at h
    | cons y ys =>
      rw [Datum.sameList, Bool.and_eq_true] at h
      rw [List.length_cons, List.length_cons, ih h.2]

theorem labels_zip {α β : Type} {xs : List (Label × α)} {ys : List β}
    (h : xs.length = ys.length) : (xs.zip ys).map (·.1.1) = xs.map (·.1) := by
  rw [← List.map_fst_zip h.le, List.map_map, List.map_fst_zip h.le]
  rfl

theorem labels_relabelled {α : Type} {names : List Label} {xs : List α}
    {g : Label × α → Label × Column} (hg : ∀ x, (g x).1 = x.1) (h : names.length = xs.length) :
    ((names.zip xs).map g).map (·.1) = names := by
  rw [List.map_map]
  exact (List.map_congr_left fun x _ ↦ hg x).trans (List.map_fst_zip h.le)

theorem labels_union : Ensures (l.union r) fun g ↦ g.labels = l.labels := by
  unfold union
  split
  · next h =>
    refine .ok ?_
    have hlen : l.columns.length = r.columns.length := by
      simpa [labels] using length_of_sameList h
    rw [labels, List.map_map]
    exact labels_zip hlen
  · exact .error _

theorem labels_melt (idVars : List Label) (valueVars : Option (List Label))
    (varName valueName : Label) : Ensures (f.melt idVars valueVars varName valueName)
      fun g ↦ g.labels = idVars ++ [varName, valueName] := by
  refine .check fun _ ↦ .check fun _ ↦ .skip fun scope ↦ ?_
  refine (Ensures.mapM_forall₂ (R := fun l x ↦ x.1 = l) fun l _ ↦ ?_).bind fun ids hids ↦ ?_
  · exact .skip fun c ↦ .ok rfl
  · have hmap := map_eq_map_of_forall₂ hids
    exact .ok (by simp [labels, hmap])

theorem labels_distinctOutputs {α : Type} (xs : List (Label × α)) :
    (distinctOutputs xs).map (·.1) = (xs.map (·.1)).foldl withLabel [] := by
  rw [List.foldl_map]
  refine (List.foldl_hom (List.map Prod.fst) fun acc x ↦ ?_).symm
  have hany : x.1.isIn (acc.map (·.1)) = acc.any (·.1.same x.1) := List.any_map
  rw [withLabel, hany]
  split
  · rw [List.map_map]
    refine (List.map_congr_left fun y _ ↦ ?_).symm
    rw [Function.comp_apply]
    split <;> rfl
  · rw [List.map_append]
    rfl

theorem labels_aggregate (outputs : List (Label × Label × String)) :
    Ensures (f.aggregate outputs)
      fun g ↦ g.labels = (outputs.map (·.1)).foldl withLabel [] := by
  refine (Ensures.mapM_forall₂ (R := fun x y ↦ y.1 = x.1) fun x _ ↦ ?_).bind fun cells hcells ↦ ?_
  · exact .skip fun c ↦ .skip fun s ↦ .skip fun d ↦ .ok rfl
  · refine .ok ?_
    rw [labels, List.map_map, ← map_eq_map_of_forall₂ hcells, ← labels_distinctOutputs]
    rfl

theorem labels_groupBy (keys : List Label) (sort : Bool) (outputs : List (Label × Label × String)) :
    Ensures (f.groupBy keys sort outputs)
      fun g ↦ g.labels = keys ++ (outputs.map (·.1)).foldl withLabel [] := by
  refine .skip fun gs ↦ ?_
  refine (Ensures.mapM_forall₂ (R := fun _ _ ↦ True) fun _ _ _ _ ↦ trivial).bind
    fun sources hsources ↦ ?_
  refine (Ensures.mapM_forall₂ (R := fun x y ↦ y.1 = x.1.1) fun x _ ↦ ?_).bind
    fun columns hcolumns ↦ ?_
  · exact .skip fun s ↦ .skip fun c ↦ .ok rfl
  refine (Ensures.mapM_forall₂ (R := fun l x ↦ x.1 = l) fun l _ ↦ ?_).bind fun ids hids ↦ ?_
  · exact .skip fun c ↦ .ok rfl
  refine .check fun _ ↦ .ok ?_
  have hkeys := map_eq_map_of_forall₂ hids
  have houtputs := map_eq_map_of_forall₂ hcolumns
  rw [labels_zip hsources.length_eq] at houtputs
  rw [labels, List.map_append, hkeys, List.map_id', houtputs, labels_distinctOutputs]

theorem labels_select (ls : List Label) :
    Ensures (f.select ls) fun g ↦
      g.labels = ls.flatMap (fun l ↦ f.labels.filter (·.same l)) ∧
        ∀ l ∈ ls, l.isIn f.labels = true := by
  refine (Ensures.mapM_forall₂ (R := fun l cs ↦ cs.map (·.1) = f.labels.filter (·.same l) ∧
    l.isIn f.labels = true) fun l _ ↦ ?_).bind fun columns hcolumns ↦ .ok ⟨?_, fun l hl ↦ ?_⟩
  · split
    · exact .error _
    · next hne =>
      refine .ok ⟨by rw [labels, List.filter_map]; rfl, ?_⟩
      obtain ⟨c, hc⟩ := List.exists_mem_of_ne_nil _ hne
      obtain ⟨hc, hsame⟩ := List.mem_filter.mp hc
      exact List.any_eq_true.mpr ⟨c.1, List.mem_map_of_mem hc, hsame⟩
  · have hmap := map_eq_map_of_forall₂ (hcolumns.imp fun _ _ h ↦ h.1)
    rw [labels, List.map_flatten, hmap, List.flatMap]
  · obtain ⟨cs, -, hcs⟩ := exists_of_forall₂ hcolumns.flip hl
    exact hcs.2

/-- The labels of both sides of a join stay as they are just when none is on both sides: if there is
one, at least one of the sides gets a suffix. -/
theorem suffixed_texts (suffixes : Option String × Option String) (ls rs : List String) :
    Ensures (suffixed suffixes (ls.map .text) (rs.map .text)) fun x ↦
      x.1.length = ls.length ∧ x.2.length = rs.length ∧
        (x = (ls.map .text, rs.map .text) ↔ ∀ n ∈ ls, n ∉ rs) := by
  have hshared : (ls.map Datum.text).filter (·.isIn (rs.map .text)) =
      (ls.filter (rs.contains ·)).map .text := by
    rw [List.filter_map]
    exact congrArg _ (List.filter_congr fun n _ ↦ Datum.isIn_texts n rs)
  unfold suffixed
  dsimp only
  rw [hshared]
  by_cases h : ((ls.filter (rs.contains ·)).map Datum.text).isEmpty = true
  · rw [if_pos h]
    refine .ok ⟨List.length_map _, List.length_map _, iff_of_true rfl ?_⟩
    simpa using h
  · rw [if_neg h]
    refine .check fun hsuffixes ↦ .check fun _ ↦ .ok ⟨by simp, by simp, ?_⟩
    obtain ⟨n, hl, hr⟩ : ∃ n ∈ ls, n ∈ rs := by simpa using h
    refine iff_of_false (fun heq ↦ hsuffixes ?_) fun hdisjoint ↦ hdisjoint n hl hr
    have hn : (Datum.text n).isIn ((ls.filter (rs.contains ·)).map .text) = true := by
      rw [Datum.isIn_texts]
      simp [hl, hr]
    obtain ⟨hleft, hright⟩ := Prod.mk.inj heq
    rw [List.map_map, List.map_inj_left] at hleft hright
    obtain ⟨s, t⟩ := suffixes
    have hs : s.getD "" = "" := by
      cases s with
      | none => rfl
      | some s =>
        have hfixed := (if_pos hn).symm.trans (hleft n hl)
        exact String.append_eq_left_iff.mp (Datum.text.inj hfixed)
    have ht : t.getD "" = "" := by
      cases t with
      | none => rfl
      | some t =>
        have hfixed := (if_pos hn).symm.trans (hright n hr)
        exact String.append_eq_left_iff.mp (Datum.text.inj hfixed)
    simp [hs, ht]

theorem labels_rest (on : List String) {rs : List String} (hr : r.labels = rs.map .text) :
    (r.columns.filter fun c ↦ !(((on.map Datum.text).zip (on.map .text)).filter
        fun k ↦ k.1.same k.2).any (·.1.same c.1)).map (·.1) =
      (rs.filter fun n ↦ !on.contains n).map .text := by
  have hkeys : ((on.map Datum.text).zip (on.map .text)).filter (fun k ↦ k.1.same k.2) =
      on.map fun n ↦ (.text n, .text n) := by
    rw [List.zip_map']
    exact List.filter_eq_self.mpr (by simp)
  have hany : ∀ n, (on.map fun n ↦ (Datum.text n, Datum.text n)).any (·.1.same (.text n)) =
      on.contains n := by
    intro n
    rw [← Datum.isIn_texts, Datum.isIn, List.any_map, List.any_map]
    rfl
  have hfilter : (r.columns.filter fun c ↦ !(on.map fun n ↦ (Datum.text n, Datum.text n)).any
      (·.1.same c.1)).map (·.1) =
      r.labels.filter fun l ↦ !(on.map fun n ↦ (Datum.text n, Datum.text n)).any (·.1.same l) := by
    rw [labels, List.filter_map]
    rfl
  rw [hkeys, hfilter, hr, List.filter_map]
  refine congrArg _ (List.filter_congr fun n _ ↦ ?_)
  rw [Function.comp_apply, hany]

/-- A join of text labels on the same keys has the labels of both sides, the keys once, just when
the sides have no other label in common. -/
theorem labels_join {on ls rs : List String} (kind : JoinKind)
    (suffixes : Option String × Option String) (hl : l.labels = ls.map .text)
    (hr : r.labels = rs.map .text) :
    Ensures (join (on.map .text) (on.map .text) kind suffixes l r) fun g ↦
      g.labels = (ls ++ rs.filter fun n ↦ !on.contains n).map .text ↔
        ∀ n ∈ rs, n ∈ ls → n ∈ on := by
  refine .check fun _ ↦ .skip fun keys ↦ .check fun _ ↦ ?_
  have hrest := labels_rest on hr
  have hsuffixed := suffixed_texts suffixes ls (rs.filter fun n ↦ !on.contains n)
  rw [← hl, ← hrest] at hsuffixed
  refine Ensures.bind hsuffixed ?_
  rintro ⟨ls', rs'⟩ ⟨hls, hrs, hiff⟩
  refine .ok ?_
  have hleft : ls'.length = l.columns.length := by
    rw [hls, ← List.length_map Datum.text, ← hl, labels, List.length_map]
  have hright := congrArg List.length hrest
  rw [List.length_map, List.length_map, ← hrs] at hright
  rw [labels, List.map_append, labels_relabelled ?_ hleft, labels_relabelled ?_ hright.symm]
  rotate_left
  · exact fun _ ↦ rfl
  · intro x
    dsimp only
    split <;> rfl
  rw [List.map_append, ← hl, ← hrest]
  constructor
  · intro heq
    obtain ⟨rfl, rfl⟩ := List.append_inj heq (by rw [hleft, labels, List.length_map])
    intro n hn hmem
    simpa [hn] using hiff.mp rfl n hmem
  · intro h
    have hdisjoint : ∀ n ∈ ls, n ∉ rs.filter fun n ↦ !on.contains n := by
      intro n hn hmem
      obtain ⟨hmem, hon⟩ := List.mem_filter.mp hmem
      simp [h n hmem hn] at hon
    obtain ⟨rfl, rfl⟩ := Prod.mk.inj (hiff.mpr hdisjoint)
    rfl

end Frame

end Gridplan
