import Gridplan.Proofs.Frame.Labels

namespace Gridplan

open Outcome (Ensures)

theorem Datum.same_text_iff {d : Datum} {name : String} :
    d.same (.text name) = true ↔ d = .text name := by
  cases d <;> simp [Datum.same, Datum.number?]

namespace Column

variable {c : Column}

theorem toList_pick_subset (rows : List Nat) : (c.pick rows).toList ⊆ c.toList := by
  have hsub : ∀ {α : Type} (xs : List α), rows.filterMap (xs[·]?) ⊆ xs := by
    intro α xs x hx
    obtain ⟨i, -, hi⟩ := List.mem_filterMap.mp hx
    exact List.mem_of_getElem? hi
  cases c with
  | mixed xs => exact hsub xs
  | _ => exact List.map_subset _ (hsub _)

theorem toList_pickOr_subset {rows : List (Option Nat)} (h : ∀ r ∈ rows, r.isSome = true) :
    (c.pickOr rows).toList ⊆ c.toList := by
  obtain ⟨ns, rfl⟩ : ∃ ns : List Nat, rows = ns.map some := by
    refine ⟨rows.filterMap id, ?_⟩
    induction rows with
    | nil => rfl
    | cons r rows ih =>
      obtain ⟨hr, hrows⟩ := List.forall_mem_cons.mp h
      obtain ⟨n, rfl⟩ := Option.isSome_iff_exists.mp hr
      simpa using ih hrows
  have hmap : (ns.map some).mapM id = some ns := by
    induction ns with
    | nil => rfl
    | cons n ns ih => simp_all
  rw [pickOr, hmap]
  exact toList_pick_subset ns

end Column

namespace Frame

variable {f g l r : Frame} {name : String} {cells : List Datum} {c : Column}
variable {names : List String} {leftOn rightOn : List String} {other : String}

def Draws (f : Frame) (name : String) (cells : List Datum) : Prop :=
  ∃ c, f.column? (.text name) = some c ∧ c.toList ⊆ cells

theorem column?_pick (rows : List Nat) (k : Label) :
    (f.pick rows).column? k = (f.column? k).map (·.pick rows) := by
  rw [column?, column?, pick, List.find?_map, Option.map_map, Option.map_map]
  rfl

theorem Draws.pick (h : f.Draws name cells) (rows : List Nat) : (f.pick rows).Draws name cells := by
  obtain ⟨c, hc, hcells⟩ := h
  refine ⟨c.pick rows, by rw [column?_pick, hc, Option.map_some], fun d hd ↦ ?_⟩
  exact hcells (Column.toList_pick_subset rows hd)

theorem Draws.named (h : f.Draws name cells) (names : List Datum) :
    Ensures (f.named names) fun g ↦ g.Draws name cells :=
  .skip fun _ ↦ .ok (h.pick _)

theorem Draws.locateBy (h : f.Draws name cells) (c : Column) :
    Ensures (f.locateBy c) fun g ↦ g.Draws name cells := by
  unfold Frame.locateBy
  split
  · exact .ok (h.pick _)
  · split
    · exact .ok (h.pick _)
    · split
      · exact .error _
      · exact h.named _
  · exact h.named _

theorem Draws.locate (h : f.Draws name cells) (q : Quantity) :
    Ensures (f.locate q) fun g ↦ g.Draws name cells := by
  unfold Frame.locate
  split
  · exact h.locateBy _
  · split
    · split
      · exact .ok (h.pick _)
      · split
        · exact .ok (h.pick _)
        · exact .error _
    · exact h.named _
  · exact .error _
  · exact .error _
  · exact .skip fun _ ↦ .error _

theorem column?_setColumn (hne : other ≠ name) (c : Column) :
    (f.setColumn (.text other) c).column? (.text name) = f.column? (.text name) := by
  unfold setColumn column?
  split
  · rw [List.find?_map]
    have hlabel : ((fun x : Label × Column ↦ x.1.same (.text name)) ∘
        fun p : Label × Column ↦ if p.1.same (.text other) then (p.1, c) else p) =
          fun x ↦ x.1.same (.text name) := by
      funext p
      rw [Function.comp_apply]
      split <;> rfl
    rw [hlabel]
    cases hfind : f.columns.find? (·.1.same (.text name)) with
    | none => rfl
    | some x =>
      have hx : x.1 = .text name := Datum.same_text_iff.mp (List.find?_some hfind :)
      rw [Option.map_some, if_neg (by simpa [hx] using Ne.symm hne)]
  · rw [List.find?_append, List.find?_cons_of_neg (by simpa using hne), List.find?_nil,
      Option.or_none]

theorem Draws.setColumn (h : f.Draws name cells) (hne : other ≠ name) (c : Column) :
    (f.setColumn (.text other) c).Draws name cells := by
  unfold Draws
  rwa [column?_setColumn hne]

theorem Draws.window (h : f.Draws name cells) {w : WindowSpec} {output : String}
    (hw : w.output = .text output) (hne : output ≠ name) :
    Ensures (f.window w) fun g ↦ g.Draws name cells :=
  .skip fun values ↦ .ok ((hw ▸ h.setColumn hne values : Draws ..).pick _)

theorem find?_flatten {columns : List (List (Label × Column))} {x : Label × Column}
    (h : List.Forall₂ (fun n cs ↦ cs = f.columns.filter (·.1.same (.text n))) names columns)
    (hx : f.columns.find? (·.1.same (.text name)) = some x) (hname : name ∈ names) :
    columns.flatten.find? (·.1.same (.text name)) = some x := by
  induction h with
  | nil => cases hname
  | @cons n cs names columns hcs _ ih =>
    rw [List.flatten_cons, List.find?_append]
    by_cases hn : n = name
    · subst hn
      have hfirst : cs.find? (·.1.same (.text n)) = some x := by
        rw [hcs, ← List.head?_filter, List.filter_filter, ← hx, ← List.head?_filter]
        simp only [Bool.and_self]
      rw [hfirst, Option.some_or]
    · have hnone : cs.find? (·.1.same (.text name)) = none := by
        refine List.find?_eq_none.mpr fun y hy hsame ↦ hn ?_
        rw [hcs, List.mem_filter, Datum.same_text_iff] at hy
        exact Datum.text.inj (hy.2.symm.trans (Datum.same_text_iff.mp hsame))
      rw [hnone, Option.none_or]
      exact ih (List.mem_of_ne_of_mem (Ne.symm hn) hname)

theorem Draws.select (h : f.Draws name cells) (hname : name ∈ names) :
    Ensures (f.select (names.map .text)) fun g ↦ g.Draws name cells := by
  refine (Ensures.mapM_forall₂ (R := fun k cs ↦ cs = f.columns.filter (·.1.same k))
    fun k _ ↦ ?_).bind fun columns hcolumns ↦ .ok ?_
  · split
    · exact .error _
    · exact .ok rfl
  · obtain ⟨c, hc, hcells⟩ := h
    obtain ⟨x, hx, rfl⟩ := Option.map_eq_some_iff.mp hc
    have hfind := find?_flatten (List.forall₂_map_left_iff.mp hcolumns) hx hname
    exact ⟨x.2, congrArg _ hfind, hcells⟩

theorem column?_of_column {k : Label} (h : f.column k = .ok c) : f.column? k = some c := by
  unfold column at h
  split at h
  · cases h
  · next x hx =>
    obtain rfl := Except.ok.inj h
    rw [column?, ← List.head?_filter, hx]
    rfl
  · cases h

theorem Draws.cells_subset (h : f.Draws name cells) (hc : f.column (.text name) = .ok c) :
    c.toList ⊆ cells := by
  obtain ⟨d, hd, hcells⟩ := h
  obtain rfl := Option.some.inj (hd.symm.trans (column?_of_column hc))
  exact hcells

/-- Whether a column has the label and some cells of the only column with that label. -/
def Copies (f : Frame) (k : Label) (x : Label × Column) : Prop :=
  x.1 = k ∧ ∃ c, f.column k = .ok c ∧ x.2.toList ⊆ c.toList

theorem copies_pick (k : Label) (rows : List Nat) :
    Ensures (f.column k >>= fun c ↦ .ok (k, c.pick rows)) (f.Copies k) := by
  intro x hx
  obtain ⟨c, hc, hx⟩ := Outcome.bind_eq_ok.mp hx
  obtain rfl := Except.ok.inj hx
  exact ⟨rfl, c, hc, Column.toList_pick_subset rows⟩

theorem Draws.copies (h : f.Draws name cells) {ids : List (Label × Column)}
    (hids : List.Forall₂ f.Copies (names.map .text) ids) (hname : name ∈ names)
    (rest : List (Label × Column)) (index : List Int) : Draws ⟨ids ++ rest, index⟩ name cells := by
  induction names generalizing ids with
  | nil => cases hname
  | cons n names ih =>
    obtain ⟨x, ids, ⟨hx, c, hc, hsub⟩, hrest, rfl⟩ := List.forall₂_cons_left_iff.mp hids
    by_cases hn : n = name
    · subst hn
      refine ⟨x.2, ?_, fun d hd ↦ h.cells_subset hc (hsub hd)⟩
      rw [column?, List.cons_append, List.find?_cons_of_pos (by simp [hx])]
      rfl
    · obtain ⟨d, hd, hcells⟩ := ih hrest (List.mem_of_ne_of_mem (Ne.symm hn) hname)
      refine ⟨d, ?_, hcells⟩
      rwa [column?, List.cons_append, List.find?_cons_of_neg (by simpa [hx] using hn)]

theorem Draws.groupBy (h : f.Draws name cells) {keys : List String} (hname : name ∈ keys)
    (sort : Bool) (outputs : List (Label × Label × String)) :
    Ensures (f.groupBy (keys.map .text) sort outputs) fun g ↦ g.Draws name cells := by
  refine .skip fun gs ↦ .skip fun sources ↦ .skip fun columns ↦ ?_
  refine (Ensures.mapM_forall₂ fun k _ ↦ copies_pick k _).bind fun ids hids ↦ ?_
  exact .check fun _ ↦ .ok (h.copies hids hname _ _)

theorem Draws.melt (h : f.Draws name cells) {idVars : List String} (hname : name ∈ idVars)
    (valueVars : Option (List Label)) (varName valueName : Label) :
    Ensures (f.melt (idVars.map .text) valueVars varName valueName) fun g ↦
      g.Draws name cells := by
  refine .check fun _ ↦ .check fun _ ↦ .skip fun scope ↦ ?_
  refine (Ensures.mapM_forall₂ fun k _ ↦ copies_pick k _).bind fun ids hids ↦ ?_
  exact .ok (h.copies hids hname _ _)

theorem isSome_of_mem_pairLeft {alone : Bool} {left right : List (List Datum)} {p : Pairing}
    (h : p ∈ pairLeft alone left right) : p.1.isSome = true := by
  obtain ⟨⟨key, i⟩, -, hp⟩ := List.mem_flatMap.mp h
  dsimp only at hp
  split at hp
  · split at hp
    · obtain rfl := List.mem_singleton.mp hp
      rfl
    · cases hp
  · obtain ⟨j, -, rfl⟩ := List.mem_map.mp hp
    rfl

theorem toList_sharedKey_subset {pairs : List Pairing} {a b : Column}
    (h : ∀ p ∈ pairs, p.1.isSome = true) : (sharedKey pairs a b).toList ⊆ a.toList := by
  rw [sharedKey, if_pos (List.all_eq_true.mpr h)]
  exact Column.toList_pickOr_subset (List.forall_mem_map.mpr h)

def renamed (shared : List Label) (suffix : Option String) (k : Label) : Label :=
  match suffix with
  | some s => if k.isIn shared then .text (k.display ++ s) else k
  | none => k

def clashes (old new : List Label) : Bool :=
  (List.range new.length).any fun i ↦
    match new[i]?, old[i]? with
    | some k, some o => k.isIn (new.take i) && !o.isIn (old.take i)
    | _, _ => false

theorem suffixed_eq (suffixes : Option String × Option String) (left right : List Label) :
    suffixed suffixes left right =
      let shared := left.filter (·.isIn right)
      let ls := left.map (renamed shared suffixes.1)
      let rs := right.map (renamed shared suffixes.2)
      if shared.isEmpty then .ok (left, right)
      else if suffixes.1.getD "" == "" && suffixes.2.getD "" == "" then .error .value
      else if clashes left ls || clashes right rs then .error .value else .ok (ls, rs) := rfl

theorem isIn_text_iff {ks : List Label} : (Datum.text name).isIn ks = true ↔ .text name ∈ ks := by
  simp [Datum.isIn, Datum.same_text_iff]

theorem clashes_of_mem {before after bs as : List Label} (hbefore : .text name ∉ before)
    (hbs : .text name ∈ bs) (hlen : bs.length = before.length) :
    clashes (before ++ .text name :: after) (bs ++ .text name :: as) = true := by
  refine List.any_eq_true.mpr ⟨before.length, List.mem_range.mpr (by simp [hlen]), ?_⟩
  have hnew : (bs ++ Datum.text name :: as)[before.length]? = some (.text name) := by
    simp [← hlen]
  have hold : (before ++ Datum.text name :: after)[before.length]? = some (.text name) := by simp
  simp only [hnew, hold]
  rw [← hlen, List.take_left, hlen, List.take_left, Bool.and_eq_true, isIn_text_iff]
  refine ⟨hbs, ?_⟩
  rw [Bool.not_eq_true', ← Bool.not_eq_true, isIn_text_iff]
  exact hbefore

/-- A label of the left side only keeps its place: a label before it that a suffix turned into it
would be refused. -/
theorem suffixed_kept {suffixes : Option String × Option String} {before after rest : List Label}
    (hbefore : .text name ∉ before) (hrest : .text name ∉ rest) :
    Ensures (suffixed suffixes (before ++ .text name :: after) rest) fun x ↦
      ∃ bs as, x.1 = bs ++ .text name :: as ∧ bs.length = before.length ∧
        as.length = after.length ∧ .text name ∉ bs := by
  rw [suffixed_eq]
  dsimp only
  generalize hshared : (before ++ Datum.text name :: after).filter (·.isIn rest) = shared
  have hname : renamed shared suffixes.1 (.text name) = .text name := by
    have hnot : ¬(Datum.text name).isIn shared = true := by
      rw [isIn_text_iff, ← hshared, List.mem_filter, isIn_text_iff]
      exact fun h ↦ hrest h.2
    unfold renamed
    split
    · exact if_neg hnot
    · rfl
  split
  · exact .ok ⟨before, after, rfl, rfl, rfl, hbefore⟩
  refine .check fun _ ↦ .check fun hclash ↦ .ok
    ⟨before.map (renamed shared suffixes.1), after.map (renamed shared suffixes.1), ?_, by simp,
      by simp, fun hmem ↦ hclash ?_⟩
  · rw [List.map_append, List.map_cons, hname]
  · rw [List.map_append, List.map_cons, hname, clashes_of_mem hbefore hmem (by simp), Bool.true_or]

theorem find?_zip {α : Type} {bs as : List Label} {before after : List α} {x : α}
    {g : Label × α → Label × Column} (hg : ∀ y, (g y).1 = y.1) (hbs : .text name ∉ bs)
    (hlen : bs.length = before.length) (rest : List (Label × Column)) :
    (((bs ++ .text name :: as).zip (before ++ x :: after)).map g ++ rest).find?
      (·.1.same (.text name)) = some (g (.text name, x)) := by
  rw [List.zip_append hlen, List.zip_cons_cons, List.map_append, List.append_assoc,
    List.find?_append, List.map_cons, List.cons_append]
  have hnone : ((bs.zip before).map g).find? (·.1.same (.text name)) = none := by
    refine List.find?_eq_none.mpr fun y hy hsame ↦ hbs ?_
    obtain ⟨z, hz, rfl⟩ := List.mem_map.mp hy
    rw [hg, Datum.same_text_iff] at hsame
    exact hsame ▸ List.of_mem_zip hz |>.1
  rw [hnone, Option.none_or, List.find?_cons_of_pos (by simp [hg])]

theorem notMem_added (h : .text name ∈ r.labels → (name, name) ∈ leftOn.zip rightOn) :
    Datum.text name ∉ (r.columns.filter fun x ↦ !(((leftOn.map Datum.text).zip
      (rightOn.map .text)).filter fun k ↦ k.1.same k.2).any (·.1.same x.1)).map (·.1) := by
  intro hmem
  obtain ⟨x, hx, hname⟩ := List.mem_map.mp hmem
  obtain ⟨hx, hnot⟩ := List.mem_filter.mp hx
  have hkey : (Datum.text name, Datum.text name) ∈ ((leftOn.map Datum.text).zip
      (rightOn.map .text)).filter fun k ↦ k.1.same k.2 := by
    rw [List.zip_map, List.mem_filter]
    exact ⟨List.mem_map_of_mem (h (hname ▸ List.mem_map_of_mem hx)), by simp⟩
  simp only [hname, Bool.not_eq_true', ← Bool.not_eq_true] at hnot
  exact hnot (List.any_eq_true.mpr ⟨_, hkey, by simp⟩)

theorem Draws.join (h : l.Draws name cells) {kind : JoinKind} (hkind : kind = .left ∨ kind = .inner)
    (suffixes : Option String × Option String)
    (hright : .text name ∈ r.labels → (name, name) ∈ leftOn.zip rightOn) :
    Ensures (Frame.join (leftOn.map .text) (rightOn.map .text) kind suffixes l r)
      fun g ↦ g.Draws name cells := by
  obtain ⟨c, hc, hcells⟩ := h
  obtain ⟨x, hx, rfl⟩ := Option.map_eq_some_iff.mp hc
  obtain ⟨hlabel, before, after, hcolumns, hbefore⟩ := List.find?_eq_some_iff_append.mp hx
  refine .check fun _ ↦ .skip fun keys ↦ .check fun _ ↦ ?_
  dsimp only
  generalize hpairs : pairings kind _ _ = pairs
  have hadded := notMem_added hright
  generalize ((leftOn.map Datum.text).zip (rightOn.map .text)).filter
    (fun k ↦ k.1.same k.2) = shared at hadded ⊢
  have hsome : ∀ p ∈ pairs, p.1.isSome = true := by
    rw [← hpairs]
    rcases hkind with rfl | rfl <;> exact fun p hp ↦ isSome_of_mem_pairLeft hp
  have hlabels : l.labels = before.map (·.1) ++ .text name :: after.map (·.1) := by
    rw [labels, hcolumns, List.map_append, List.map_cons, Datum.same_text_iff.mp hlabel]
  have hfirst : Datum.text name ∉ before.map (·.1) := by
    intro hmem
    obtain ⟨y, hy, hname⟩ := List.mem_map.mp hmem
    simpa [hname] using hbefore y hy
  rw [hlabels]
  refine (suffixed_kept hfirst hadded).bind ?_
  rintro ⟨ls, rs⟩ ⟨bs, as, rfl, hbs, has, hnot⟩
  refine .ok ?_
  dsimp only
  rw [hcolumns]
  refine ⟨_, congrArg (Option.map Prod.snd) (find?_zip ?_ hnot (by simpa using hbs) _), ?_⟩
  · intro y
    split <;> rfl
  · split
    · exact fun d hd ↦ hcells (toList_sharedKey_subset hsome hd)
    · exact fun d hd ↦ hcells (Column.toList_pickOr_subset (List.forall_mem_map.mpr hsome) hd)

end Frame

end Gridplan
