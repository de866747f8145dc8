import Gridplan.Proofs.Frame.Labels
import Gridplan.Proofs.Plan.Assembly
import Gridplan.Proofs.Table.Conditions

namespace Gridplan

open Recording (lift_bind_eq_ok)

variable {func : String} {ordered : Bool} {keys : List Label} {ls : List Label}

inductive Verb where
  | select (columns : List String)
  /-- The rows for which a condition without complements holds. -/
  | filter (c : { c : Condition // c.bare = c })
  | sort (columns : List String) (ascending : Datum)
  | limit (side : Side) (n : Nat)
  /-- One summary of all other columns for each group, perhaps in the order of the keys. -/
  | groupBy (keys : List String) (ordered : Bool) (func : String)

namespace Verb

def apply (t : Table) : Verb → Recording Table
  | select columns => t.select (columns.map .text)
  | filter c => do t.filter (← (c.1.mask t : Outcome Mask))
  | sort columns ascending => t.sort (columns.map .text) ascending
  | limit side n => t.limit side n
  | groupBy keys ordered func => t.groupBy (keys.map .text) ordered (.every func)

/-- Whether the frame of a call does not depend on what is left out of its record. -/
def Faithful (t : Table) : Verb → Prop
  | groupBy keys ordered func =>
    func ≠ "size" ∧
      (∀ l ∈ t.frame.labels, l.isIn (keys.map .text) = false → ∃ n, l = .text n) ∧
      ∃ f g, t.frame.inquire (keys.map .text) ordered (.every func) = .ok f ∧
        t.frame.inquire (keys.map .text) false (.every func) = .ok g ∧ g.Alike f
  | _ => True

end Verb

/-- Whether an operator makes of a frame one that is alike to another. -/
def Operator.Repeats (op : Operator) (inputs : List Frame) (f : Frame) : Prop :=
  ∃ g, op.run inputs = .ok g ∧ g.Alike f

/-- What a call on a tracked table leaves: a node with this operator above the plan. -/
structure Table.Records (t : Table) (n : Nat) (t' : Table) (n' : Nat) (op : Operator) : Prop where
  plan : t'.plan = t.plan.map fun p ↦ .node (some n) op [p]
  next : n' = n + 1
  unary : Operator.inputCount? op.kind = some 1

namespace Table

variable {t t' : Table} {n n' : Nat}
variable {columns : List String}

theorem records_of_follow {x : Outcome Frame} {kind : Kind} {params : Params} {op : Operator}
    (ht : t.plan.isSome = true) (hk : Plan.storesAsGiven kind = true)
    (hop : Plan.stored kind params = op) (hunary : Operator.inputCount? op.kind = some 1)
    (h : (do t.follow (← (x : Outcome Frame)) kind params : Recording Table) n = .ok (t', n')) :
    x = .ok t'.frame ∧ t.Records n t' n' op := by
  obtain ⟨p, hp⟩ := Option.isSome_iff_exists.mp ht
  obtain ⟨f, hx, hfollow⟩ := lift_bind_eq_ok.mp h
  obtain ⟨rfl, hnext⟩ := follow_tracked hk hp hfollow
  exact ⟨hx, by rw [hp, hop]; rfl, hnext, hunary⟩

theorem chosen_texts (columns : List String) (f : Frame) :
    chosen (columns.map .text) f = f.select (columns.map .text) := by
  cases columns <;> rfl

theorem select_records (ht : t.plan.isSome = true)
    (h : t.select (columns.map .text) n = .ok (t', n')) :
    ∃ op, t.Records n t' n' op ∧ ∀ g : Frame, g.Alike t.frame → op.Repeats [g] t'.frame := by
  obtain ⟨hframe, hrec⟩ := records_of_follow ht rfl (Plan.stored_select columns) rfl h
  refine ⟨_, hrec, ?_⟩
  intro g hg
  rw [chosen_texts] at hframe
  obtain ⟨k, hk, halike⟩ := hg.select hframe
  exact ⟨k.renumber, by rw [Operator.run, hk]; rfl, halike.renumbered⟩

theorem filter_records {c : Condition} (hc : c.bare = c) {m : Mask} (ht : t.plan.isSome = true)
    (hm : c.mask t = .ok m) (h : t.filter m n = .ok (t', n')) :
    ∃ op, t.Records n t' n' op ∧ ∀ g : Frame, g.Alike t.frame → op.Repeats [g] t'.frame := by
  obtain ⟨bs, kept, name, op, l, r, rfl, hbare, heval⟩ := Condition.mask_eq_ok ht hm
  rw [hc, hm] at hbare
  cases hbare
  obtain ⟨hframe, hrec⟩ := records_of_follow ht rfl (Plan.stored_filter _) rfl h
  refine ⟨_, hrec, ?_⟩
  intro g hg
  rw [Mask.choose_bools] at hframe
  rw [← Except.ok.inj hframe]
  refine ⟨(g.keep bs).renumber, ?_, (hg.keep bs).renumbered⟩
  rw [Operator.run, Mask.recorded, Option.getD_some, heval g hg]
  rfl

def orderKeys (columns : List String) (ds : List Bool) : List SortKey :=
  (columns.zip (ds.map direction)).map fun k ↦ ⟨k.1, k.2⟩

theorem zip_orderKeys (columns : List String) (ds : List Bool) :
    (columns.map Datum.text).zip (ds.map direction) = Operator.sortKeys (orderKeys columns ds) := by
  rw [List.zip_map_left, Operator.sortKeys, orderKeys, List.map_map]
  rfl

theorem toTuple_sortKeys (ks : List SortKey) : ks.map SortKey.toTuple =
    (Operator.sortKeys ks).map fun k ↦ .tuple [k.1, .text k.2.name] := by
  rw [Operator.sortKeys, List.map_map]
  rfl

theorem sort_records {ascending : Datum} (ht : t.plan.isSome = true)
    (h : t.sort (columns.map .text) ascending n = .ok (t', n')) :
    ∃ op, t.Records n t' n' op ∧ ∀ g : Frame, g.Alike t.frame → op.Repeats [g] t'.frame := by
  obtain ⟨ds, -, hsort⟩ := lift_bind_eq_ok.mp h
  rw [zip_orderKeys] at hsort
  have hstored := Plan.stored_sort (orderKeys columns ds)
  rw [toTuple_sortKeys] at hstored
  obtain ⟨hframe, hrec⟩ := records_of_follow ht rfl hstored rfl hsort
  refine ⟨_, hrec, ?_⟩
  intro g hg
  obtain ⟨k, hk, halike⟩ := hg.sortBy hframe
  exact ⟨k.renumber, by rw [Operator.run, hk]; rfl, halike.renumbered⟩

theorem limit_records {side : Side} {count : Nat} (ht : t.plan.isSome = true)
    (h : t.limit side count n = .ok (t', n')) :
    ∃ op, t.Records n t' n' op ∧ ∀ g : Frame, g.Alike t.frame → op.Repeats [g] t'.frame := by
  obtain ⟨p, hp⟩ := Option.isSome_iff_exists.mp ht
  obtain ⟨rfl, hnext⟩ := follow_tracked rfl hp h
  rw [Plan.stored_limit]
  refine ⟨_, ⟨by rw [hp]; rfl, hnext, rfl⟩, ?_⟩
  intro g hg
  cases side with
  | head => exact ⟨_, rfl, (hg.head count).renumbered⟩
  | tail => exact ⟨_, rfl, (hg.tail count).renumbered⟩

end Table

namespace Frame

def others (keys : List Label) (f : Frame) : List Label := f.labels.filter fun l ↦ !l.isIn keys

theorem inquire_every {f : Frame} {outputs : List (Label × Label × String)}
    (h : (Inquiry.every func).outputs keys (f.others keys) = .ok outputs) :
    f.inquire keys ordered (.every func) = f.groupBy keys ordered outputs := by
  have hsame : ∀ a : Frame, ⟨a.columns.map fun c ↦ (c.1, c.2), a.index⟩ = a := by
    intro a
    rw [List.map_id']
  cases hg : f.groups keys ordered with
  | error e => rw [inquire, groupBy, hg]; rfl
  | ok gs =>
    rw [inquire, hg, Outcome.ok_bind]
    simp only [Inquiry.isNested, Bool.false_and, Bool.false_eq_true, if_false]
    rw [others] at h
    rw [h, Outcome.ok_bind]
    cases f.groupBy keys ordered outputs with
    | error e => rfl
    | ok a => exact congrArg Except.ok (hsame a)

end Frame

namespace Inquiry

theorem outputs_every (hfunc : func ≠ "size") (keys others : List Label) :
    (every func).outputs keys others = .ok (others.map fun l ↦ (l, l, func)) := by
  simp [outputs]

theorem recorded_every (func : String) (others : List Label) :
    (every func).recorded others = others.map fun l ↦ .tuple [l, .text func, l] := by
  cases others <;> simp [recorded]

end Inquiry

namespace Frame

theorem mem_others {f : Frame} {l : Label} :
    l ∈ f.others keys ↔ l ∈ f.labels ∧ l.isIn keys = false := by
  simp [others]

theorem mem_of_mem_foldl_withLabel {ls acc : List Label} {l : Label}
    (h : l ∈ ls.foldl withLabel acc) : l ∈ acc ∨ l ∈ ls := by
  induction ls generalizing acc with
  | nil => exact .inl h
  | cons k ls ih =>
    rcases ih h with hacc | hls
    · rw [withLabel] at hacc
      split at hacc
      · exact .inl hacc
      · rcases List.mem_append.mp hacc with hacc | hk
        · exact .inl hacc
        · exact .inr (List.mem_cons.mpr (.inl (List.mem_singleton.mp hk)))
    · exact .inr (List.mem_cons_of_mem _ hls)

theorem not_alike_size {keys ls : List Label} {f a b : Frame}
    (ha : f.inquire keys ordered (.every "size") = .ok a)
    (hb : f.groupBy keys false (ls.map fun l ↦ (l, l, func)) = .ok b)
    (hls : ∀ l ∈ ls, ∃ n, l = .text n) : ¬ b.Alike a := by
  intro hab
  rw [inquire_every rfl] at ha
  cases keys with
  | nil => cases ha
  | cons k keys =>
    have houtputs : (ls.map fun l ↦ (l, l, func)).map (·.1) = ls := by
      rw [List.map_map]
      exact List.map_id ls
    have hlabels := hab.labels
    rw [labels_groupBy _ _ _ b hb, labels_groupBy _ _ _ a ha, houtputs] at hlabels
    have hzero : Datum.int 0 ∈ ls.foldl withLabel [] := by
      rw [List.append_cancel_left hlabels]
      exact List.mem_singleton_self _
    rcases mem_of_mem_foldl_withLabel hzero with hnil | hmem
    · cases hnil
    · obtain ⟨n, hn⟩ := hls _ hmem
      cases hn

end Frame

theorem Aggregation.text_of_listOf? {aggs : List Aggregation}
    (h : listOf? (.list (ls.map fun l ↦ .tuple [l, .text func, l])) = some aggs) {l : Label}
    (hl : l ∈ ls) : ∃ n, l = .text n := by
  have hread := mapM_eq_some_forall₂ h
  obtain ⟨a, -, ha⟩ := exists_of_forall₂ hread.flip (List.mem_map_of_mem hl)
  cases l with
  | text n => exact ⟨n, rfl⟩
  | _ => cases ha

theorem exists_texts (h : ∀ l ∈ ls, ∃ n, l = .text n) : ∃ ns : List String, ls = ns.map .text := by
  induction ls with
  | nil => exact ⟨[], rfl⟩
  | cons l ls ih =>
    obtain ⟨⟨n, rfl⟩, hrest⟩ := List.forall_mem_cons.mp h
    obtain ⟨ns, rfl⟩ := ih hrest
    exact ⟨n :: ns, rfl⟩

theorem Operator.repeats_groupBy {keys ns : List String} {a f g : Frame}
    (hls : a.others (keys.map .text) = ns.map .text)
    (hf : a.inquire (keys.map .text) ordered (.every func) = .ok f) (hg : g.Alike a) :
    (groupBy keys (ns.map fun n ↦ ⟨n, func, n⟩) [] none).Repeats [g] f ↔
      func ≠ "size" ∧ ∃ b, a.inquire (keys.map .text) false (.every func) = .ok b ∧ b.Alike f := by
  have houtputs : outputs (ns.map fun n ↦ ⟨n, func, n⟩) =
      (ns.map Datum.text).map fun l ↦ (l, l, func) := by
    rw [outputs, List.map_map, List.map_map]
    rfl
  have hrun : (groupBy keys (ns.map fun n ↦ ⟨n, func, n⟩) [] none).run [g] =
      a.groupBy (keys.map .text) false ((ns.map .text).map fun l ↦ (l, l, func)) := by
    rw [run, houtputs, hg.groupBy]
  rw [Repeats, hrun]
  by_cases hfunc : func = "size"
  · subst hfunc
    refine iff_of_false ?_ (fun h ↦ h.1 rfl)
    intro hrepeats
    obtain ⟨b, hb, halike⟩ := hrepeats
    refine Frame.not_alike_size hf hb ?_ halike
    intro l hl
    obtain ⟨n, -, rfl⟩ := List.mem_map.mp hl
    exact ⟨n, rfl⟩
  · rw [Frame.inquire_every (Inquiry.outputs_every hfunc _ _), hls]
    exact (and_iff_right hfunc).symm

namespace Table

variable {t t' : Table} {n n' : Nat}

theorem groupBy_records {keys : List String} (ht : t.plan.isSome = true)
    (h : t.groupBy (keys.map .text) ordered (.every func) n = .ok (t', n')) :
    ∃ op, t.Records n t' n' op ∧ ∀ g : Frame, g.Alike t.frame →
      (op.Repeats [g] t'.frame ↔ (Verb.groupBy keys ordered func).Faithful t) := by
  obtain ⟨p, hp⟩ := Option.isSome_iff_exists.mp ht
  obtain ⟨f, hf, hfollow⟩ := lift_bind_eq_ok.mp h
  simp only [ht, if_true, Inquiry.recorded_every] at hfollow
  obtain ⟨rfl, hnext⟩ := follow_tracked rfl hp hfollow
  have hothers : (t.frame.labels.filter fun l ↦ !l.isIn (keys.map .text)) =
    t.frame.others (keys.map .text) := rfl
  rw [hothers]
  have hmem : (∀ l ∈ t.frame.labels, l.isIn (keys.map .text) = false → ∃ n, l = .text n) ↔
      ∀ l ∈ t.frame.others (keys.map .text), ∃ n, l = .text n := by
    simp only [Frame.mem_others, and_imp]
  by_cases htexts : ∀ l ∈ t.frame.others (keys.map .text), ∃ n, l = .text n
  · obtain ⟨ns, hns⟩ := exists_texts htexts
    have hstored := Plan.stored_groupBy keys (ns.map fun n ↦ ⟨n, func, n⟩)
    rw [List.map_map] at hstored
    rw [hns, List.map_map]
    refine ⟨_, ⟨by rw [hp]; exact congrArg some (congrArg (Plan.node _ · _) hstored), hnext, rfl⟩, ?_⟩
    intro g hg
    rw [Operator.repeats_groupBy hns hf hg, Verb.Faithful, hmem, and_iff_right htexts, hf]
    simp only [Except.ok.injEq, exists_and_left, exists_eq_left']
  · have hnone : Aggregation.listOf? (.list ((t.frame.others (keys.map .text)).map
        fun l ↦ .tuple [l, .text func, l])) = none := by
      apply Option.eq_none_iff_forall_ne_some.mpr
      intro aggs hread
      exact htexts fun l hl ↦ Aggregation.text_of_listOf? hread hl
    obtain ⟨ps, hps⟩ := Plan.stored_groupBy_loose (.raw (.list (keys.map .text))) hnone
    rw [hps]
    refine ⟨_, ⟨by rw [hp]; rfl, hnext, rfl⟩, ?_⟩
    intro g hg
    rw [Verb.Faithful, hmem]
    refine iff_of_false ?_ (fun hfaithful ↦ htexts hfaithful.2.1)
    intro hrepeats
    obtain ⟨b, hb, -⟩ := hrepeats
    cases hb

end Table

namespace Verb

variable {t t' : Table} {n n' : Nat} {v : Verb}

theorem apply_records (ht : t.plan.isSome = true) (h : v.apply t n = .ok (t', n')) :
    ∃ op, t.Records n t' n' op ∧
      ∀ g : Frame, g.Alike t.frame → (op.Repeats [g] t'.frame ↔ v.Faithful t) := by
  have hfaithful (hr : ∃ op, t.Records n t' n' op ∧
      ∀ g : Frame, g.Alike t.frame → op.Repeats [g] t'.frame) : ∃ op, t.Records n t' n' op ∧
        ∀ g : Frame, g.Alike t.frame → (op.Repeats [g] t'.frame ↔ True) := by
    obtain ⟨op, hrec, hop⟩ := hr
    exact ⟨op, hrec, fun g hg ↦ iff_true_intro (hop g hg)⟩
  cases v with
  | select columns => exact hfaithful (Table.select_records ht h)
  | filter c =>
    obtain ⟨m, hmask, hfilter⟩ := lift_bind_eq_ok.mp h
    exact hfaithful (Table.filter_records c.2 ht hmask hfilter)
  | sort columns ascending => exact hfaithful (Table.sort_records ht h)
  | limit side count => exact hfaithful (Table.limit_records ht h)
  | groupBy keys ordered func => exact Table.groupBy_records ht h

theorem apply_untracked (hp : t.plan = none) (h : v.apply t n = .ok (t', n')) :
    t'.plan = none ∧ n' = n := by
  cases v with
  | select columns =>
    obtain ⟨f, -, hfollow⟩ := lift_bind_eq_ok.mp h
    exact Table.follow_untracked hp hfollow
  | filter c =>
    obtain ⟨m, -, hfilter⟩ := lift_bind_eq_ok.mp h
    cases m with
    | list ds | series i c l e | array c =>
      obtain ⟨f, -, hfollow⟩ := lift_bind_eq_ok.mp hfilter
      exact Table.follow_untracked hp hfollow
  | sort columns ascending =>
    obtain ⟨ds, -, hsort⟩ := lift_bind_eq_ok.mp h
    obtain ⟨f, -, hfollow⟩ := lift_bind_eq_ok.mp hsort
    exact Table.follow_untracked hp hfollow
  | limit side count => exact Table.follow_untracked hp h
  | groupBy keys ordered func =>
    obtain ⟨f, -, hfollow⟩ := lift_bind_eq_ok.mp h
    exact Table.follow_untracked hp hfollow

end Verb

inductive MergeKeys where
  | on (k : KeyNames)
  | sides (l r : KeyNames)

namespace MergeKeys

def left : MergeKeys → KeyNames
  | on k => k
  | sides l _ => l

def right : MergeKeys → KeyNames
  | on k => k
  | sides _ r => r

end MergeKeys

structure MergeCall where
  keys : MergeKeys
  how : String
  suffixes : Option String × Option String

namespace MergeCall

variable {m : MergeCall}

def suffixData (m : MergeCall) : Datum :=
  .tuple [Datum.ofText? m.suffixes.1, Datum.ofText? m.suffixes.2]

def merging (m : MergeCall) : Merging :=
  match m.keys with
  | .on k => { on := k.toDatum, how := m.how, suffixes := m.suffixData }
  | .sides l r =>
    { leftOn := l.toDatum, rightOn := r.toDatum, how := m.how, suffixes := m.suffixData }

theorem how_merging (m : MergeCall) : m.merging.how = m.how := by
  unfold merging
  cases m.keys <;> rfl

theorem suffixes_merging (m : MergeCall) : m.merging.suffixes = m.suffixData := by
  unfold merging
  cases m.keys <;> rfl

theorem labels?_toDatum (k : KeyNames) : Merging.labels? k.toDatum = some (k.names.map .text) := by
  cases k <;> rfl

theorem keys_merging (m : MergeCall) (f g : Frame) :
    m.merging.keys f g = .ok (m.keys.left.names.map .text, m.keys.right.names.map .text) := by
  unfold merging
  cases m.keys with
  | on k => simp only [Merging.keys, labels?_toDatum]; rfl
  | sides l r => simp only [Merging.keys, labels?_toDatum]; rfl

theorem toDatum_ne_null (k : KeyNames) : (k.toDatum == .null) = false := by
  cases k <;> rfl

theorem recordedKeys_merging (m : MergeCall) :
    m.merging.recordedKeys = (m.keys.left.toDatum, m.keys.right.toDatum) := by
  unfold merging
  cases m.keys with
  | on k => simp [Merging.recordedKeys, toDatum_ne_null, MergeKeys.left, MergeKeys.right]
  | sides l r => simp [Merging.recordedKeys, toDatum_ne_null, MergeKeys.left, MergeKeys.right]

theorem suffixPair_merging (m : MergeCall) : m.merging.suffixPair = .ok m.suffixes := by
  obtain ⟨keys, how, a, b⟩ := m
  rw [Merging.suffixPair, suffixes_merging]
  cases a <;> cases b <;> rfl

theorem frame_eq_ok {f g x : Frame} (h : m.merging.frame f g = .ok x) :
    ∃ kind, JoinKind.ofName? m.how = some kind ∧
      Frame.join (m.keys.left.names.map .text) (m.keys.right.names.map .text) kind m.suffixes f g =
        .ok x := by
  unfold Merging.frame at h
  rw [how_merging] at h
  by_cases hcross : m.how = "cross"
  · simp only [if_pos hcross, Outcome.error_bind] at h
    split at h <;> cases h
  simp only [if_neg hcross, keys_merging, suffixPair_merging, Outcome.ok_bind] at h
  cases hkind : JoinKind.ofName? m.how with
  | some kind =>
    simp only [hkind] at h
    split at h
    · cases h
    · exact ⟨kind, rfl, h⟩
  | none =>
    simp only [hkind] at h
    split at h
    · cases h
    · obtain ⟨-, -, h⟩ := Outcome.bind_eq_ok.mp h
      obtain ⟨-, -, h⟩ := Outcome.bind_eq_ok.mp h
      cases h

end MergeCall

namespace Table

variable {l r t' : Table} {n n' : Nat} {p : Plan} {m : MergeCall}

theorem merge_untracked (hp : l.plan = none) (h : Table.merge m.merging l r n = .ok (t', n')) :
    t'.plan = none ∧ n' = n := by
  obtain ⟨f, -, hmerge⟩ := lift_bind_eq_ok.mp h
  simp only [hp] at hmerge
  obtain ⟨rfl, rfl⟩ := Recording.pure_eq_ok.mp hmerge
  exact ⟨rfl, rfl⟩

theorem merge_records (hp : l.plan = some p) (h : Table.merge m.merging l r n = .ok (t', n')) :
    ∃ q k op, r.rootOr "<right_dataframe>" n = .ok (q, k) ∧ n' = k + 1 ∧
      t'.plan = some (.node (some k) op [p, q]) ∧ Operator.inputCount? op.kind = some 2 ∧
      ∀ f g : Frame, f.Alike l.frame → g.Alike r.frame → op.Repeats [f, g] t'.frame := by
  obtain ⟨x, hframe, hmerge⟩ := lift_bind_eq_ok.mp h
  simp only [hp] at hmerge
  obtain ⟨q, k, hq, hmerge⟩ := Recording.bind_eq_ok.mp hmerge
  obtain ⟨node, j, hnode, hmerge⟩ := Recording.bind_eq_ok.mp hmerge
  obtain ⟨rfl, rfl⟩ := Recording.pure_eq_ok.mp hmerge
  obtain ⟨b, hb, rfl, rfl⟩ := Plan.record_eq_ok.mp hnode
  rw [MergeCall.recordedKeys_merging, MergeCall.how_merging, MergeCall.suffixes_merging] at hb
  obtain ⟨kind, hkind, rfl⟩ := Plan.build_join rfl hb
  obtain ⟨kind', hkind', hjoin⟩ := MergeCall.frame_eq_ok hframe
  obtain rfl := Option.some.inj (hkind'.symm.trans hkind)
  refine ⟨q, k, _, hq, rfl, rfl, rfl, ?_⟩
  intro f g hf hg
  refine ⟨x, ?_, .refl x⟩
  rw [← hf.join hg] at hjoin
  exact hjoin

end Table

end Gridplan
