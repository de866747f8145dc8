import Gridplan.Plan.Drawing
import Gridplan.Proofs.Plan.Sharing
import Mathlib.Data.List.Perm.Subperm
import Mathlib.Logic.Relation
import Mathlib.Tactic

namespace Gridplan

namespace Text

/-- The lines of a text: what stands between its line breaks. -/
def lines (s : String) : List String := (s.toList.splitOn '\n').map String.ofList

def breaks (s : String) : Nat := s.toList.count '\n'

theorem breaks_eq_zero {s : String} : breaks s = 0 ↔ '\n' ∉ s.toList := List.count_eq_zero

theorem breaks_append (s t : String) : breaks (s ++ t) = breaks s + breaks t := by
  simp [breaks]

theorem length_lines (s : String) : (lines s).length = 1 + breaks s := by
  rw [lines, breaks, List.length_map]
  induction s.toList with
  | nil => rfl
  | cons c cs ih =>
    rw [List.splitOn_cons_eq_if_modifyHead, List.count_cons]
    split
    · rw [List.length_cons, ih, Nat.add_assoc]
    · rw [List.length_modifyHead, ih, Nat.add_zero]

theorem lines_eq_singleton {s : String} (h : '\n' ∉ s.toList) : lines s = [s] := by
  simp [lines, List.splitOn_eq_singleton h]

theorem lines_intercalate {ss : List String} (h : ss ≠ []) :
    lines ("\n".intercalate ss) = ss.flatMap lines := by
  induction ss with
  | nil => exact absurd rfl h
  | cons s ss ih =>
    cases ss with
    | nil => simp
    | cons t ss =>
      have hbreak : (s ++ "\n" ++ "\n".intercalate (t :: ss)).toList =
          s.toList ++ '\n' :: ("\n".intercalate (t :: ss)).toList := by simp
      rw [List.flatMap_cons, ← ih (List.cons_ne_nil t ss), String.intercalate_cons_cons]
      simp only [lines, hbreak, List.splitOn_append_cons_self, List.map_append]

end Text

namespace Graph

variable {g : Graph} {root i depth : Nat} {c c' c'' : Canvas} {seen : List Nat}

def caption (g : Graph) (i : Nat) : String := (g.nodes[i]?.map Prod.fst).getD ""

def inputs (g : Graph) (i : Nat) : List Nat := (g.nodes[i]?.map Prod.snd).getD []

/-- Whether the inputs of nodes are nodes of the graph. -/
def Closed (g : Graph) : Prop := ∀ i, ∀ j ∈ g.inputs i, j < g.nodes.size

/-- Whether one node is reached from another along inputs. -/
def Reaches (g : Graph) : Nat → Nat → Prop := Relation.ReflTransGen fun i j ↦ j ∈ g.inputs i

/-- A node and the place of one of its inputs; nothing leads to the root. -/
abbrev Edge := Option (Nat × Nat)

def edges (g : Graph) (i : Nat) : List Edge :=
  (List.range (g.inputs i).length).map fun k ↦ some (i, k)

def target? (g : Graph) (root : Nat) : Edge → Option Nat
  | none => some root
  | some (i, k) => (g.inputs i)[k]?

/-- One stroke of a drawing: the edge it is for, the node at the end of it, the branches before its
text, and whether the node is described there. Every edge that is reached from the root gets one. -/
structure Stroke where
  edge : Edge
  node : Nat
  lead : String
  describes : Bool

/-- Whether a text is made of branches alone. -/
def IsBranches (s : String) : Prop := ∀ ch ∈ s.toList, ch ∈ [' ', '│', '├', '└', '─']

def Stroke.text (g : Graph) (s : Stroke) : String :=
  s.lead ++ if s.describes then g.caption s.node else "[already shown]"

/-- The nodes that strokes describe, in their order. -/
def described (ss : List Stroke) : List Nat := (ss.filter (·.describes)).map (·.node)

/-- Whether strokes describe just the nodes that were not seen before. -/
def Faithful : List Nat → List Stroke → Prop
  | _, [] => True
  | seen, s :: ss =>
    (s.describes = true ↔ s.node ∉ seen) ∧ Faithful (described [s] ++ seen) ss

@[simp] theorem length_edges (g : Graph) (i : Nat) : (g.edges i).length = (g.inputs i).length := by
  simp [edges]

theorem described_append (ss ts : List Stroke) :
    described (ss ++ ts) = described ss ++ described ts := by
  simp [described]

theorem described_cons (s : Stroke) (ss : List Stroke) :
    described (s :: ss) = described [s] ++ described ss :=
  described_append [s] ss

theorem described_reverse_singleton (s : Stroke) : (described [s]).reverse = described [s] := by
  cases h : s.describes <;> simp [described, h]

namespace Faithful

variable {ss ts : List Stroke} {s : Stroke}

theorem append (hs : Faithful seen ss) (ht : Faithful ((described ss).reverse ++ seen) ts) :
    Faithful seen (ss ++ ts) := by
  induction ss generalizing seen with
  | nil => exact ht
  | cons s ss ih =>
    rw [described_cons, List.reverse_append, described_reverse_singleton, List.append_assoc] at ht
    exact ⟨hs.1, ih hs.2 ht⟩

theorem nodup (h : Faithful seen ss) (hseen : seen.Nodup) :
    ((described ss).reverse ++ seen).Nodup := by
  induction ss generalizing seen with
  | nil => exact hseen
  | cons s ss ih =>
    rw [described_cons, List.reverse_append, described_reverse_singleton, List.append_assoc]
    apply ih h.2
    cases hs : s.describes with
    | false => simpa [described, hs] using hseen
    | true => simpa [described, hs] using ⟨h.1.mp hs, hseen⟩

/-- After a stroke its node has been seen. -/
theorem mem_step (h : s.describes = true ↔ s.node ∉ seen) (i : Nat) :
    i ∈ described [s] ++ seen ↔ i = s.node ∨ i ∈ seen := by
  cases hs : s.describes with
  | true => simp [described, hs]
  | false =>
    have hin : s.node ∈ seen := by simpa [hs] using h
    simp only [described, hs, List.filter_cons, List.filter_nil, Bool.false_eq_true, if_false,
      List.map_nil, List.nil_append]
    exact ⟨.inr, fun hi ↦ hi.elim (fun hi ↦ hi ▸ hin) id⟩

theorem mem_seen (h : Faithful seen ss) (i : Nat) :
    i ∈ (described ss).reverse ++ seen ↔ i ∈ ss.map (·.node) ∨ i ∈ seen := by
  induction ss generalizing seen with
  | nil => simp [described]
  | cons s ss ih =>
    rw [described_cons, List.reverse_append, described_reverse_singleton, List.append_assoc, ih h.2,
      mem_step h.1, List.map_cons, List.mem_cons]
    tauto

theorem describes_iff (h : Faithful seen (ss ++ s :: ts)) :
    s.describes = true ↔ s.node ∉ seen ∧ s.node ∉ ss.map (·.node) := by
  induction ss generalizing seen with
  | nil => simpa using h.1
  | cons t ss ih =>
    rw [ih h.2, mem_step h.1, List.map_cons, List.mem_cons]
    tauto

end Faithful

/-- What a canvas has more than another one: strokes for some edges, and for all edges of the nodes
that these strokes describe. -/
structure Drew (g : Graph) (root : Nat) (c c' : Canvas) (es : List Edge) (starts : List Nat)
    (ss : List Stroke) : Prop where
  lines : c'.lines = c.lines ++ ss.map (Stroke.text g)
  seen : c'.seen = (described ss).reverse ++ c.seen
  faithful : Faithful c.seen ss
  edges : (ss.map (·.edge)).Perm (es ++ (described ss).flatMap g.edges)
  ends : ∀ s ∈ ss, g.target? root s.edge = some s.node
  leads : ∀ s ∈ ss, IsBranches s.lead
  reached : ∀ x ∈ described ss, ∃ j ∈ starts, g.Reaches j x

namespace Drew

variable {es fs : List Edge} {js ks : List Nat} {ss ts : List Stroke} {e : Edge} {lead : String}

theorem nil : Drew g root c c [] [] [] where
  lines := by simp
  seen := rfl
  faithful := trivial
  edges := List.Perm.nil
  ends := by simp
  leads := by simp
  reached := by simp [described]

theorem append (h : Drew g root c c' es js ss) (h' : Drew g root c' c'' fs ks ts) :
    Drew g root c c'' (es ++ fs) (js ++ ks) (ss ++ ts) where
  lines := by rw [h'.lines, h.lines, List.map_append, List.append_assoc]
  seen := by rw [h'.seen, h.seen, described_append, List.reverse_append, List.append_assoc]
  faithful := h.faithful.append (h.seen ▸ h'.faithful)
  edges := by
    rw [List.map_append, described_append, List.flatMap_append]
    refine (h.edges.append h'.edges).trans ?_
    rw [List.append_assoc, List.append_assoc]
    exact (List.perm_append_comm_assoc _ _ _).append_left es
  ends := by
    intro s hs
    exact (List.mem_append.mp hs).elim (h.ends s) (h'.ends s)
  leads := by
    intro s hs
    exact (List.mem_append.mp hs).elim (h.leads s) (h'.leads s)
  reached := by
    intro x hx
    rw [described_append] at hx
    rcases List.mem_append.mp hx with hx | hx
    · obtain ⟨j, hj, hjx⟩ := h.reached x hx
      exact ⟨j, List.mem_append_left _ hj, hjx⟩
    · obtain ⟨j, hj, hjx⟩ := h'.reached x hx
      exact ⟨j, List.mem_append_right _ hj, hjx⟩

theorem pointer (he : g.target? root e = some i) (hi : i ∈ c.seen) (hlead : IsBranches lead) :
    Drew g root c ⟨c.lines ++ [lead ++ "[already shown]"], c.seen⟩ [e] [i]
      [⟨e, i, lead, false⟩] where
  lines := rfl
  seen := rfl
  faithful := ⟨by simpa using hi, trivial⟩
  edges := List.Perm.refl _
  ends := List.forall_mem_singleton.mpr he
  leads := List.forall_mem_singleton.mpr hlead
  reached := by simp [described]

theorem node (he : g.target? root e = some i) (hi : i ∉ c.seen) (hlead : IsBranches lead)
    (h : Drew g root ⟨c.lines ++ [lead ++ g.caption i], i :: c.seen⟩ c' (g.edges i) (g.inputs i)
      ss) :
    Drew g root c c' [e] [i] (⟨e, i, lead, true⟩ :: ss) where
  lines := by simpa [Stroke.text] using h.lines
  seen := by simpa [described] using h.seen
  faithful := ⟨by simpa using hi, h.faithful⟩
  edges := h.edges.cons e
  ends := List.forall_mem_cons.mpr ⟨he, h.ends⟩
  leads := List.forall_mem_cons.mpr ⟨hlead, h.leads⟩
  reached := by
    intro x hx
    refine ⟨i, List.mem_singleton_self i, ?_⟩
    rcases List.mem_cons.mp hx with rfl | hx
    · exact .refl
    · obtain ⟨j, hj, hjx⟩ := h.reached x hx
      exact .head hj hjx

end Drew

/-- Whether so many nodes above a canvas are as many as there can still be. -/
structure Canvas.Within (g : Graph) (depth : Nat) (c : Canvas) : Prop where
  nodup : c.seen.Nodup
  bound : ∀ i ∈ c.seen, i < g.nodes.size
  room : g.nodes.size ≤ depth + c.seen.length

theorem lt_of_target? (hg : g.Closed) (hroot : root < g.nodes.size) {e : Edge}
    (he : g.target? root e = some i) : i < g.nodes.size := by
  cases e with
  | none => exact Option.some.inj he ▸ hroot
  | some e => exact hg e.1 i (List.mem_of_getElem? he)

namespace Canvas.Within

theorem mem (h : c.Within g 0) (hi : i < g.nodes.size) : i ∈ c.seen := by
  have hsub : c.seen ⊆ List.range g.nodes.size := fun j hj ↦ List.mem_range.mpr (h.bound j hj)
  have hlen : (List.range g.nodes.size).length ≤ c.seen.length := by simpa using h.room
  have hperm := (h.nodup.subperm hsub).perm_of_length_le hlen
  exact hperm.mem_iff.mpr (List.mem_range.mpr hi)

theorem describe (h : c.Within g (depth + 1)) (hi : i ∉ c.seen) (hlt : i < g.nodes.size)
    (lines : List String) : Canvas.Within g depth ⟨lines, i :: c.seen⟩ where
  nodup := List.nodup_cons.mpr ⟨hi, h.nodup⟩
  bound := List.forall_mem_cons.mpr ⟨hlt, h.bound⟩
  room := by
    have := h.room
    rw [List.length_cons]
    omega

theorem after (h : c.Within g depth) (hg : g.Closed) (hroot : root < g.nodes.size) {es : List Edge}
    {js : List Nat} {ss : List Stroke} (hd : Drew g root c c' es js ss) : c'.Within g depth where
  nodup := hd.seen ▸ hd.faithful.nodup h.nodup
  bound := by
    intro i hi
    rw [hd.seen, hd.faithful.mem_seen] at hi
    rcases hi with hi | hi
    · obtain ⟨s, hs, rfl⟩ := List.mem_map.mp hi
      exact lt_of_target? hg hroot (hd.ends s hs)
    · exact h.bound i hi
  room := by
    have := h.room
    rw [hd.seen, List.length_append]
    omega

end Canvas.Within

theorem drawInputs_cons (visit : Bool → Nat → Canvas → Canvas) (j : Nat) (js : List Nat)
    (c : Canvas) : drawInputs visit (j :: js) c = drawInputs visit js (visit js.isEmpty j c) := by
  cases js <;> rfl

/-- Branches with one more of them; the root has none. -/
def grown (indent : Option String) (branch : String) : String :=
  (indent.map (· ++ branch)).getD ""

theorem drawNode_seen (hi : i ∈ c.seen) (depth : Nat) (indent : Option String) (last : Bool) :
    drawNode g depth indent last i c = drawNode.pointTo indent last c := by
  have hin : c.seen.contains i = true := by simpa using hi
  cases depth <;> simp only [drawNode, hin, if_true]

theorem drawNode_new (hi : i ∉ c.seen) (hlt : i < g.nodes.size) (depth : Nat)
    (indent : Option String) (last : Bool) :
    drawNode g (depth + 1) indent last i c =
      drawInputs (drawNode g depth (some (grown indent (extension last)))) (g.inputs i)
        ⟨c.lines ++ [grown indent (connector last) ++ g.caption i], i :: c.seen⟩ := by
  have hin : c.seen.contains i = false := by simpa using hi
  have hnode : g.nodes[i]? = some g.nodes[i] := Array.getElem?_eq_getElem hlt
  simp only [drawNode, hin, Bool.false_eq_true, if_false, hnode, inputs, caption, Option.map_some,
    Option.getD_some]
  cases indent with
  | none => simp [grown]
  | some s => rfl

theorem IsBranches.append {s t : String} (hs : IsBranches s) (ht : IsBranches t) :
    IsBranches (s ++ t) := by
  intro ch hch
  rw [String.toList_append] at hch
  exact (List.mem_append.mp hch).elim (hs ch) (ht ch)

theorem isBranches_empty : IsBranches "" := by simp [IsBranches]

theorem isBranches_connector (last : Bool) : IsBranches (connector last) := by
  cases last <;> simp [IsBranches, connector]

theorem isBranches_extension (last : Bool) : IsBranches (extension last) := by
  cases last <;> simp [IsBranches, extension]

theorem isBranches_grown {indent : Option String} (h : ∀ s ∈ indent, IsBranches s) {t : String}
    (ht : IsBranches t) : IsBranches (grown indent t) := by
  cases indent with
  | none => exact isBranches_empty
  | some s => exact (h s rfl).append ht

theorem drawNode_pointer {e : Edge} {indent : Option String} (hindent : ∀ s ∈ indent, IsBranches s)
    (last : Bool) (he : g.target? root e = some i) (hi : i ∈ c.seen) :
    ∃ ss c', Drew g root c c' [e] [i] ss ∧ ∀ n, drawNode g n indent last i c = c' := by
  have hlead : IsBranches (indent.getD "" ++ connector last) := by
    refine IsBranches.append ?_ (isBranches_connector last)
    cases indent with
    | none => exact isBranches_empty
    | some s => exact hindent s rfl
  exact ⟨_, _, .pointer he hi hlead, fun n ↦ drawNode_seen hi n indent last⟩

section Run

variable (hg : g.Closed) (hroot : root < g.nodes.size)

include hg hroot

theorem drawInputs_drew {indent : String}
    (hvisit : ∀ last j c e, g.target? root e = some j → c.Within g depth →
      ∃ ss c', Drew g root c c' [e] [j] ss ∧ ∀ n ≥ depth, drawNode g n (some indent) last j c = c')
    {js : List Nat} {k : Nat} (hjs : (g.inputs i).drop k = js) (hc : c.Within g depth) :
    ∃ ss c', Drew g root c c' ((List.range' k js.length).map fun k ↦ some (i, k)) js ss ∧
      ∀ n ≥ depth, drawInputs (drawNode g n (some indent)) js c = c' := by
  induction js generalizing k c with
  | nil => exact ⟨[], c, .nil, fun _ _ ↦ rfl⟩
  | cons j js ih =>
    have hj : g.target? root (some (i, k)) = some j := by
      rw [target?, ← List.head?_drop, hjs, List.head?_cons]
    have hrest : (g.inputs i).drop (k + 1) = js := by
      rw [← List.tail_drop, hjs, List.tail_cons]
    obtain ⟨ss, c₁, hfirst, hdraw⟩ := hvisit js.isEmpty j c _ hj hc
    obtain ⟨ts, c₂, hdrew, hdraws⟩ := ih hrest (hc.after hg hroot hfirst)
    refine ⟨ss ++ ts, c₂, hfirst.append hdrew, fun n hn ↦ ?_⟩
    rw [drawInputs_cons, hdraw n hn, hdraws n hn]

/-- A depth that is enough for the nodes that are left makes strokes, and a greater one makes the
same ones. -/
theorem drawNode_drew {e : Edge} {indent : Option String} (hindent : ∀ s ∈ indent, IsBranches s)
    (last : Bool) (he : g.target? root e = some i) (hc : c.Within g depth) :
    ∃ ss c', Drew g root c c' [e] [i] ss ∧ ∀ n ≥ depth, drawNode g n indent last i c = c' := by
  induction depth generalizing indent last i c e with
  | zero =>
    have hi := hc.mem (lt_of_target? hg hroot he)
    obtain ⟨ss, c', hdrew, hdraw⟩ := drawNode_pointer hindent last he hi
    exact ⟨ss, c', hdrew, fun n _ ↦ hdraw n⟩
  | succ depth ih =>
    by_cases hi : i ∈ c.seen
    · obtain ⟨ss, c', hdrew, hdraw⟩ := drawNode_pointer hindent last he hi
      exact ⟨ss, c', hdrew, fun n _ ↦ hdraw n⟩
    · have hlt := lt_of_target? hg hroot he
      have hbelow : ∀ s ∈ some (grown indent (extension last)), IsBranches s := by
        intro s hs
        exact Option.some.inj hs ▸ isBranches_grown hindent (isBranches_extension last)
      have hlead := isBranches_grown hindent (isBranches_connector last)
      have hcanvas :=
        hc.describe hi hlt (c.lines ++ [grown indent (connector last) ++ g.caption i])
      obtain ⟨ss, c', hdrew, hdraw⟩ := drawInputs_drew hg hroot
        (fun last j c e he hc ↦ ih hbelow last he hc) List.drop_zero hcanvas
      rw [← List.range_eq_range'] at hdrew
      refine ⟨_, c', hdrew.node he hi hlead, fun n hn ↦ ?_⟩
      obtain ⟨n, rfl⟩ := Nat.exists_eq_add_of_le' hn
      rw [← Nat.add_assoc, drawNode_new hi hlt, hdraw _ (Nat.le_add_left _ _)]

end Run

namespace Drew

variable {ss : List Stroke}

theorem mem_described_iff (h : Drew g root ⟨[], []⟩ c' [none] [root] ss) (x : Nat) :
    x ∈ described ss ↔ g.Reaches root x := by
  have hdrawn : ∀ e ∈ [none] ++ (described ss).flatMap g.edges, ∀ x,
      g.target? root e = some x → x ∈ described ss := by
    intro e he x hx
    obtain ⟨s, hs, rfl⟩ := List.mem_map.mp (h.edges.mem_iff.mpr he)
    have hmem := (h.faithful.mem_seen x).mpr (.inl (List.mem_map.mpr ⟨s, hs, ?_⟩))
    · simpa using hmem
    · exact Option.some.inj ((h.ends s hs).symm.trans hx)
  constructor
  · intro hx
    obtain ⟨j, hj, hjx⟩ := h.reached x hx
    rwa [List.mem_singleton.mp hj] at hjx
  · intro hx
    induction hx with
    | refl => exact hdrawn none (by simp) root rfl
    | @tail y z _ hyz hy =>
      -- the edge from a described node is drawn, and its end is described as well
      obtain ⟨k, hk, hz⟩ := List.getElem_of_mem hyz
      refine hdrawn (some (y, k)) ?_ z (List.getElem?_eq_some_iff.mpr ⟨hk, hz⟩)
      refine List.mem_append_right _ (List.mem_flatMap.mpr ⟨y, hy, ?_⟩)
      exact List.mem_map.mpr ⟨k, List.mem_range.mpr hk, rfl⟩

theorem nodup_described (h : Drew g root ⟨[], []⟩ c' [none] [root] ss) : (described ss).Nodup := by
  simpa using h.faithful.nodup List.nodup_nil

theorem length_eq (h : Drew g root ⟨[], []⟩ c' [none] [root] ss) :
    ss.length = 1 + ((described ss).map fun i ↦ (g.inputs i).length).sum := by
  have hlen := h.edges.length_eq
  simpa [List.length_flatMap, Nat.add_comm] using hlen

end Drew

/-- Whether strokes are all that there is to draw of what is reached from a root. -/
structure Depicts (g : Graph) (root : Nat) (ss : List Stroke) : Prop where
  /-- There is one stroke for the root and one for each edge of a node that is reached. -/
  edges : (ss.map (·.edge)).Perm (none :: (described ss).flatMap g.edges)
  ends : ∀ s ∈ ss, g.target? root s.edge = some s.node
  leads : ∀ s ∈ ss, IsBranches s.lead
  /-- Each node that is reached is described by one stroke, -/
  once : (described ss).Nodup
  reached : ∀ i, i ∈ described ss ↔ g.Reaches root i
  /-- which is the first one to it, and the others point to it. -/
  first : ∀ before s after, ss = before ++ s :: after →
    (s.describes = true ↔ s.node ∉ before.map (·.node))
  length : ss.length = 1 + ((described ss).map fun i ↦ (g.inputs i).length).sum

theorem Drew.depicts {ss : List Stroke} (h : Drew g root ⟨[], []⟩ c' [none] [root] ss) :
    g.Depicts root ss where
  edges := h.edges
  ends := h.ends
  leads := h.leads
  once := h.nodup_described
  reached := h.mem_described_iff
  first := by
    rintro before s after rfl
    simpa using h.faithful.describes_iff
  length := h.length_eq

/-- With the depth of a drawing or any greater one, the lines are those of the same strokes. -/
theorem exists_depicts (hg : g.Closed) (hroot : root < g.nodes.size) :
    ∃ ss, g.Depicts root ss ∧ g.draw root = "\n".intercalate (ss.map (Stroke.text g)) ∧
      ∀ depth ≥ g.nodes.size,
        (drawNode g depth none true root ⟨[], []⟩).lines = ss.map (Stroke.text g) := by
  have hempty : Canvas.Within g g.nodes.size ⟨[], []⟩ := ⟨List.nodup_nil, by simp, by simp⟩
  have hindent : ∀ s ∈ (none : Option String), IsBranches s := by simp
  have hedge : g.target? root none = some root := rfl
  obtain ⟨ss, c', hdrew, hdraw⟩ := drawNode_drew hg hroot hindent true hedge hempty
  have hlines : ∀ depth ≥ g.nodes.size,
      (drawNode g depth none true root ⟨[], []⟩).lines = ss.map (Stroke.text g) := by
    intro depth hdepth
    rw [hdraw depth hdepth, hdrew.lines, List.nil_append]
  exact ⟨ss, hdrew.depicts, by rw [draw, hlines _ le_rfl], hlines⟩

/-- Whether the descriptions of all nodes that are reached stand on one line. -/
def OneLined (g : Graph) (root : Nat) : Prop :=
  ∀ i, g.Reaches root i → '\n' ∉ (g.caption i).toList

theorem IsBranches.breaks_eq_zero {s : String} (h : IsBranches s) : Text.breaks s = 0 := by
  rw [Text.breaks_eq_zero]
  intro hbreak
  exact absurd (h '\n' hbreak) (by decide)

theorem Stroke.breaks_text {s : Stroke} (h : IsBranches s.lead) :
    Text.breaks (s.text g) = if s.describes then Text.breaks (g.caption s.node) else 0 := by
  rw [Stroke.text, Text.breaks_append, h.breaks_eq_zero, Nat.zero_add]
  split
  · rfl
  · rfl

namespace Depicts

variable {ss : List Stroke}

theorem ne_nil (h : g.Depicts root ss) : ss ≠ [] := by
  rintro rfl
  exact absurd h.edges.length_eq (by simp)

theorem lines_eq (h : g.Depicts root ss) :
    Text.lines ("\n".intercalate (ss.map (Stroke.text g))) =
      ss.flatMap fun s ↦ Text.lines (s.text g) := by
  have hne : ss.map (Stroke.text g) ≠ [] := by simpa using h.ne_nil
  rw [Text.lines_intercalate hne, List.flatMap_map]

theorem oneLined_iff (h : g.Depicts root ss) :
    g.OneLined root ↔ ∀ i ∈ described ss, Text.breaks (g.caption i) = 0 := by
  simp only [OneLined, h.reached, Text.breaks_eq_zero]

theorem sum_breaks (hleads : ∀ s ∈ ss, IsBranches s.lead) :
    (ss.map fun s ↦ Text.breaks (s.text g)).sum =
      ((described ss).map fun i ↦ Text.breaks (g.caption i)).sum := by
  induction ss with
  | nil => rfl
  | cons s ss ih =>
    obtain ⟨hs, hrest⟩ := List.forall_mem_cons.mp hleads
    rw [List.map_cons, List.sum_cons, ih hrest, Stroke.breaks_text hs, described_cons,
      List.map_append, List.sum_append]
    cases hd : s.describes <;> simp [described, hd]

/-- A line break in a description makes one line more than there are strokes. -/
theorem length_lines (h : g.Depicts root ss) :
    (Text.lines ("\n".intercalate (ss.map (Stroke.text g)))).length =
      1 + ((described ss).map fun i ↦ (g.inputs i).length).sum +
        ((described ss).map fun i ↦ Text.breaks (g.caption i)).sum := by
  have hsum : (ss.map fun s ↦ (Text.lines (s.text g)).length).sum =
      ss.length + (ss.map fun s ↦ Text.breaks (s.text g)).sum := by
    simp only [Text.length_lines, List.sum_map_add, List.map_const', List.sum_replicate,
      smul_eq_mul, mul_one]
  rw [h.lines_eq, List.length_flatMap, hsum, sum_breaks h.leads, h.length]

theorem length_lines_iff (h : g.Depicts root ss) :
    (Text.lines ("\n".intercalate (ss.map (Stroke.text g)))).length =
      1 + ((described ss).map fun i ↦ (g.inputs i).length).sum ↔ g.OneLined root := by
  rw [h.length_lines, Nat.add_eq_left, List.sum_eq_zero_iff, List.forall_mem_map, h.oneLined_iff]

theorem oneLined_iff_outline {α : Type} {f : α → String × Nat} {ns : List α} (h : g.Depicts root ss)
    (hperm : ((described ss).map fun i ↦ (g.caption i, (g.inputs i).length)).Perm (ns.map f)) :
    g.OneLined root ↔ ∀ x ∈ ns, '\n' ∉ (f x).1.toList := by
  have hall : (∀ x ∈ (described ss).map fun i ↦ (g.caption i, (g.inputs i).length),
      '\n' ∉ x.1.toList) ↔ ∀ x ∈ ns.map f, '\n' ∉ x.1.toList :=
    forall_congr' fun x ↦ by rw [hperm.mem_iff]
  simpa only [List.forall_mem_map, OneLined, h.reached] using hall

theorem lines_of_oneLined (h : g.Depicts root ss) (hone : g.OneLined root) :
    Text.lines ("\n".intercalate (ss.map (Stroke.text g))) = ss.map (Stroke.text g) := by
  rw [h.lines_eq, List.map_eq_flatMap]
  refine List.flatMap_congr fun s hs ↦ Text.lines_eq_singleton (Text.breaks_eq_zero.mp ?_)
  rw [Stroke.breaks_text (h.leads s hs)]
  split
  · rename_i hd
    exact h.oneLined_iff.mp hone s.node (List.mem_map.mpr ⟨s, List.mem_filter.mpr ⟨hs, hd⟩, rfl⟩)
  · rfl

end Depicts

theorem inputs_mono {g' : Graph} (h : g.nodes.toList <+: g'.nodes.toList) {j : Nat}
    (hj : j ∈ g.inputs i) : j ∈ g'.inputs i := by
  obtain ⟨rest, hrest⟩ := h
  cases hi : g.nodes[i]? with
  | none => simp [inputs, hi] at hj
  | some x =>
    have hlt : i < g.nodes.toList.length := by
      simpa using (Array.getElem?_eq_some_iff.mp hi).1
    have hi' : g'.nodes[i]? = some x := by
      rw [← Array.getElem?_toList, ← hrest, List.getElem?_append_left hlt, Array.getElem?_toList,
        hi]
    simpa [inputs, hi, hi'] using hj

theorem Reaches.mono {g' : Graph} (h : g.nodes.toList <+: g'.nodes.toList) {j : Nat}
    (hj : g.Reaches i j) : g'.Reaches i j :=
  Relation.ReflTransGen.mono (fun _ _ ↦ inputs_mono h) i j hj

end Graph

namespace Plan

namespace Numbering

/-- The descriptions of nodes with the numbers of their inputs. -/
def outline (n : Numbering) : List (String × Nat) := n.nodes.toList.map fun x ↦ (x.1, x.2.length)

def marks (n : Numbering) : List Nat := n.shared.map Prod.fst

theorem lookup_isSome (n : Numbering) (mark : Option Nat) :
    (mark.bind fun m ↦ n.shared.lookup m).isSome = mark.any (n.marks.contains ·) := by
  cases mark with
  | none => rfl
  | some m =>
    rw [Option.bind_some, Option.any_some, Bool.eq_iff_iff, Option.isSome_iff_ne_none, ne_eq,
      List.lookup_eq_none_iff]
    simp [marks]

end Numbering

def outline (p : Plan) : String × Nat := (p.op.caption, p.inputs.length)

mutual

theorem number_finished : ∀ (p : Plan) (n : Numbering),
    (number p n).2.outline = n.outline ++ (finished n.marks p).map outline ∧
      (number p n).2.marks = marksOf (finished n.marks p) ++ n.marks
  | .node mark op is, n => by
    have hmark := n.lookup_isSome mark
    rw [number, finished, ← hmark]
    cases hfound : mark.bind fun m ↦ n.shared.lookup m with
    | some i => simp
    | none =>
      obtain ⟨houtline, hmarks, hlen⟩ := numberList_finished is n
      simp only [Option.isSome_none, Bool.false_eq_true, if_false, List.map_append, marksOf_append]
      refine ⟨?_, ?_⟩
      · rw [← List.append_assoc, ← houtline]
        simp [Numbering.outline, outline, hlen, Plan.op, Plan.inputs]
      · rw [List.append_assoc, ← hmarks]
        cases mark <;> rfl

theorem numberList_finished : ∀ (ps : List Plan) (n : Numbering),
    (numberList ps n).2.outline = n.outline ++ (finishedList n.marks ps).map outline ∧
      (numberList ps n).2.marks = marksOf (finishedList n.marks ps) ++ n.marks ∧
      (numberList ps n).1.length = ps.length
  | [], n => by simp [numberList, finishedList]
  | p :: ps, n => by
    obtain ⟨houtline, hmarks⟩ := number_finished p n
    obtain ⟨houtlines, hmarkss, hlen⟩ := numberList_finished ps (number p n).2
    rw [hmarks] at houtlines hmarkss
    refine ⟨?_, ?_, ?_⟩
    · rw [numberList, houtlines, houtline, finishedList_cons, List.map_append, List.append_assoc]
    · rw [numberList, hmarkss, finishedList_cons, marksOf_append, List.append_assoc]
    · rw [numberList, List.length_cons, hlen, List.length_cons]

end

namespace Numbering

variable {n n' n'' : Numbering} {starts : List Nat}

abbrev graph (n : Numbering) : Graph := ⟨n.nodes⟩

/-- Whether the places that occur are those of nodes. -/
structure Sound (n : Numbering) : Prop where
  closed : n.graph.Closed
  shared : ∀ s ∈ n.shared, s.2 < n.nodes.size

/-- Whether a numbering has all nodes of another one and besides only nodes that are reached from
some of its places. -/
structure Grows (n n' : Numbering) (starts : List Nat) : Prop where
  kept : n.nodes.toList <+: n'.nodes.toList
  sound : n'.Sound
  placed : ∀ i ∈ starts, i < n'.nodes.size
  reached : ∀ j, n.nodes.size ≤ j → j < n'.nodes.size → ∃ i ∈ starts, n'.graph.Reaches i j

theorem Grows.same (h : n.Sound) (hstarts : ∀ i ∈ starts, i < n.nodes.size) :
    n.Grows n starts where
  kept := List.prefix_rfl
  sound := h
  placed := hstarts
  reached _ hlow hhigh := absurd hhigh (Nat.not_lt.mpr hlow)

theorem Grows.size_le (h : n.Grows n' starts) : n.nodes.size ≤ n'.nodes.size := by
  simpa using h.kept.length_le

theorem Grows.append {i : Nat} (h : n.Grows n' [i]) (h' : n'.Grows n'' starts) :
    n.Grows n'' (i :: starts) where
  kept := h.kept.trans h'.kept
  sound := h'.sound
  placed := by
    refine List.forall_mem_cons.mpr ⟨?_, h'.placed⟩
    exact (h.placed i (by simp)).trans_le h'.size_le
  reached := by
    intro j hlow hhigh
    by_cases hj : j < n'.nodes.size
    · obtain ⟨k, hk, hkj⟩ := h.reached j hlow hj
      rw [List.mem_singleton.mp hk] at hkj
      exact ⟨i, by simp, hkj.mono h'.kept⟩
    · obtain ⟨k, hk, hkj⟩ := h'.reached j (Nat.le_of_not_lt hj) hhigh
      exact ⟨k, by simp [hk], hkj⟩

theorem inputs_push (n : Numbering) (text : String) (is : List Nat) (shared : List (Nat × Nat)) :
    (Numbering.graph ⟨n.nodes.push (text, is), shared⟩).inputs n.nodes.size = is := by
  simp [Graph.inputs]

theorem Grows.push (h : n.Grows n' starts) (text : String) {shared : List (Nat × Nat)}
    (hshared : ∀ s ∈ shared, s ∈ n'.shared ∨ s.2 = n'.nodes.size) :
    n.Grows ⟨n'.nodes.push (text, starts), shared⟩ [n'.nodes.size] := by
  have hkept : n'.nodes.toList <+: (n'.nodes.push (text, starts)).toList := by
    rw [Array.toList_push]
    exact List.prefix_append ..
  refine ⟨h.kept.trans hkept, ⟨?_, ?_⟩, by simp, ?_⟩
  · intro i j hj
    rw [Array.size_push]
    by_cases hi : i = n'.nodes.size
    · rw [hi, inputs_push] at hj
      exact (h.placed j hj).trans (Nat.lt_succ_self _)
    · have hold : j ∈ n'.graph.inputs i := by
        simpa [Graph.inputs, Array.getElem?_push, hi] using hj
      exact (h.sound.closed i j hold).trans (Nat.lt_succ_self _)
  · intro s hs
    rw [Array.size_push]
    rcases hshared s hs with hs | hs
    · exact (h.sound.shared s hs).trans (Nat.lt_succ_self _)
    · exact hs ▸ Nat.lt_succ_self _
  · intro j hlow hhigh
    refine ⟨_, List.mem_singleton_self _, ?_⟩
    rw [Array.size_push] at hhigh
    rcases Nat.lt_succ_iff_lt_or_eq.mp hhigh with hj | rfl
    · obtain ⟨k, hk, hkj⟩ := h.reached j hlow hj
      exact .head (by rwa [inputs_push]) (hkj.mono hkept)
    · exact .refl

end Numbering

mutual

theorem number_grows : ∀ (p : Plan) (n : Numbering), n.Sound →
    n.Grows (number p n).2 [(number p n).1]
  | .node mark op is, n, hn => by
    rw [number]
    cases hfound : mark.bind fun m ↦ n.shared.lookup m with
    | some i =>
      have hi : i < n.nodes.size := by
        obtain ⟨m, -, hm⟩ := Option.bind_eq_some_iff.mp hfound
        obtain ⟨before, after, hsplit, -⟩ := List.lookup_eq_some_iff.mp hm
        exact hn.shared (m, i) (by simp [hsplit])
      exact .same hn (List.forall_mem_singleton.mpr hi)
    | none =>
      refine (numberList_grows is n hn).push op.caption fun s hs ↦ ?_
      cases mark with
      | none => exact .inl hs
      | some m =>
        rcases List.mem_cons.mp hs with rfl | hs
        · exact .inr rfl
        · exact .inl hs

theorem numberList_grows : ∀ (ps : List Plan) (n : Numbering), n.Sound →
    n.Grows (numberList ps n).2 (numberList ps n).1
  | [], _, hn => .same hn (List.forall_mem_nil _)
  | p :: ps, n, hn => by
    have hfirst := number_grows p n hn
    exact hfirst.append (numberList_grows ps _ hfirst.sound)

end

/-- The nodes of a plan as a graph, and the place of its root there. -/
def graph (p : Plan) : Graph := (number p {}).2.graph

def rootPlace (p : Plan) : Nat := (number p {}).1

theorem grows_graph (p : Plan) : Numbering.Grows {} (number p {}).2 [p.rootPlace] :=
  number_grows p {} ⟨by simp [Graph.Closed, Graph.inputs], by simp⟩

theorem graph_closed (p : Plan) : p.graph.Closed := p.grows_graph.sound.closed

theorem rootPlace_lt (p : Plan) : p.rootPlace < p.graph.nodes.size :=
  p.grows_graph.placed _ (List.mem_singleton_self _)

theorem reaches_iff {p : Plan} {i : Nat} :
    p.graph.Reaches p.rootPlace i ↔ i < p.graph.nodes.size := by
  constructor
  · intro h
    cases h with
    | refl => exact p.rootPlace_lt
    | tail _ hi => exact p.graph_closed _ i hi
  · intro hi
    obtain ⟨k, hk, hki⟩ := p.grows_graph.reached i (Nat.zero_le i) hi
    rwa [List.mem_singleton.mp hk] at hki

theorem outline_graph (p : Plan) :
    ((List.range p.graph.nodes.size).map fun i ↦ (p.graph.caption i, (p.graph.inputs i).length)) =
      (p.finished []).map outline := by
  have houtline : (number p {}).2.outline = (p.finished []).map outline := (number_finished p {}).1
  rw [← houtline]
  refine List.ext_getElem (by simp [Numbering.outline, graph]) fun i hi hi' ↦ ?_
  have hlt : i < (number p {}).2.nodes.size := by simpa [Numbering.outline] using hi'
  simp [Numbering.outline, Graph.caption, Graph.inputs, graph, hlt]

theorem described_graph {p : Plan} {ss : List Graph.Stroke} (h : p.graph.Depicts p.rootPlace ss) :
    (Graph.described ss).Perm (List.range p.graph.nodes.size) := by
  refine (List.perm_ext_iff_of_nodup h.once List.nodup_range).mpr fun i ↦ ?_
  rw [h.reached, reaches_iff, List.mem_range]

/-- A drawing of a graph comes to its end, for with any greater depth it is the same. It has a
stroke for the root and one for each edge of a node that is reached. Each of these nodes is
described by one stroke, the first that leads to it, and any other stroke that leads to it points
back. A line break in a description makes one line more; when there is none the strokes are the
lines of the text, and only then are these one more than the inputs of all nodes. A plan is drawn as
a graph that has each of its nodes once, also those that several others share. -/
theorem visualize_depicts :
    (∀ (g : Graph) (root : Nat), g.Closed → root < g.nodes.size →
      ∃ ss, g.Depicts root ss ∧ g.draw root = "\n".intercalate (ss.map (Graph.Stroke.text g)) ∧
        (∀ depth ≥ g.nodes.size,
          (g.drawNode depth none true root ⟨[], []⟩).lines = ss.map (Graph.Stroke.text g)) ∧
        (g.OneLined root → Text.lines (g.draw root) = ss.map (Graph.Stroke.text g)) ∧
        (Text.lines (g.draw root)).length =
          1 + ((Graph.described ss).map fun i ↦ (g.inputs i).length).sum +
            ((Graph.described ss).map fun i ↦ Text.breaks (g.caption i)).sum ∧
        ((Text.lines (g.draw root)).length =
          1 + ((Graph.described ss).map fun i ↦ (g.inputs i).length).sum ↔ g.OneLined root)) ∧
    ∀ p : Plan, p.Coherent →
      ∃ ss ns, p.graph.Depicts p.rootPlace ss ∧ p.Enumerates ns ∧
        p.visualize = "\n".intercalate (ss.map (Graph.Stroke.text p.graph)) ∧
        ((Graph.described ss).map fun i ↦ (p.graph.caption i, (p.graph.inputs i).length)).Perm
          (ns.map fun x ↦ (x.op.caption, x.inputs.length)) ∧
        ((∀ x ∈ ns, '\n' ∉ x.op.caption.toList) →
          Text.lines p.visualize = ss.map (Graph.Stroke.text p.graph)) ∧
        (Text.lines p.visualize).length = 1 + (ns.map fun x ↦ x.inputs.length).sum +
          (ns.map fun x ↦ Text.breaks x.op.caption).sum ∧
        ((Text.lines p.visualize).length = 1 + (ns.map fun x ↦ x.inputs.length).sum ↔
          ∀ x ∈ ns, '\n' ∉ x.op.caption.toList) := by
  constructor
  · intro g root hg hroot
    obtain ⟨ss, hss, hdraw, hlines⟩ := Graph.exists_depicts hg hroot
    rw [hdraw]
    exact ⟨ss, hss, rfl, hlines, hss.lines_of_oneLined, hss.length_lines, hss.length_lines_iff⟩
  · intro p hp
    obtain ⟨ss, hss, hdraw, -⟩ := Graph.exists_depicts p.graph_closed p.rootPlace_lt
    have hdraw : p.visualize = "\n".intercalate (ss.map (Graph.Stroke.text p.graph)) := hdraw
    have hperm := ((described_graph hss).map _).trans (.of_eq p.outline_graph)
    have hone := hss.oneLined_iff_outline hperm
    have hinputs : ((Graph.described ss).map fun i ↦ (p.graph.inputs i).length).sum =
        ((p.finished []).map fun x ↦ x.inputs.length).sum := by
      simpa [Function.comp_def, outline] using (hperm.map Prod.snd).sum_eq
    have hbreaks : ((Graph.described ss).map fun i ↦ Text.breaks (p.graph.caption i)).sum =
        ((p.finished []).map fun x ↦ Text.breaks x.op.caption).sum := by
      simpa [Function.comp_def, outline] using (hperm.map fun x ↦ Text.breaks x.1).sum_eq
    rw [hdraw]
    refine ⟨ss, p.finished [], hss, hp.enumerates, rfl, hperm, ?_, ?_, ?_⟩
    · exact fun h ↦ hss.lines_of_oneLined (hone.mpr h)
    · rw [hss.length_lines, hinputs, hbreaks]
    · rw [← hinputs]
      exact hss.length_lines_iff.trans hone

def ring : Graph := ⟨#[("A", [1, 1]), ("B", [0])]⟩

/-- A union of a source with itself. -/
def doubled : Plan :=
  .node (some 1) .union
    [.node (some 0) (.source "s" none none) [], .node (some 0) (.source "s" none none) []]

theorem visualize_depicts_ring :
    (∃ ss, ring.Depicts 0 ss ∧ (Text.lines (ring.draw 0)).length = 4 ∧
      Text.lines (ring.draw 0) = ss.map (Graph.Stroke.text ring)) ∧
    ∃ ss ns, doubled.graph.Depicts doubled.rootPlace ss ∧ doubled.Enumerates ns ∧
      ns.length = 2 ∧ (Text.lines doubled.visualize).length = 3 ∧
      Text.lines doubled.visualize = ss.map (Graph.Stroke.text doubled.graph) := by
  have hclosed : ring.Closed := by
    intro i j hj
    obtain _ | _ | i := i
    · simp_all [ring, Graph.inputs]
    · simp_all [ring, Graph.inputs]
    · simp [ring, Graph.inputs] at hj
  have hcoherent : doubled.Coherent := by
    refine .of_pairwise ?_ (by decide)
    simp [doubled, occurrences, occurrencesList, mark]
  have hring : ring.OneLined 0 := by
    intro i _
    obtain _ | _ | i := i <;> simp [ring, Graph.caption]
  have hdoubled : ∀ x ∈ doubled.occurrences, '\n' ∉ x.op.caption.toList := by decide
  obtain ⟨ss, hss, -, -, hlines, -, -⟩ := visualize_depicts.1 ring 0 hclosed (by decide)
  obtain ⟨ts, ns, hts, hns, -, -, hlines', -, -⟩ := visualize_depicts.2 doubled hcoherent
  refine ⟨⟨ss, hss, ?_, hlines hring⟩, ts, ns, hts, hns, ?_, ?_,
    hlines' fun x hx ↦ hdoubled x (hns.reached x hx)⟩
  · rw [Text.length_lines]
    decide
  · rw [hns.length]
    decide
  · rw [Text.length_lines]
    decide

/-- A condition on two lines over a source. -/
def parted : Plan :=
  .node (some 1) (.filter (.raw (.text "a > 1\nand b > 2")))
    [.node (some 0) (.source "s" (some ["a", "b"]) none) []]

/-- Two nodes with one input in all are drawn on three lines. -/
theorem visualize_parted : parted.Coherent ∧ parted.objects = 2 ∧
    (parted.occurrences.map fun x ↦ x.inputs.length).sum = 1 ∧
      (Text.lines parted.visualize).length = 3 := by
  refine ⟨.of_nodup (by decide) (by decide), by decide, by decide, ?_⟩
  rw [Text.length_lines]
  decide

end Plan

end Gridplan
