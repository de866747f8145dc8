import Gridplan.Proofs.Optimize.Step
import Gridplan.Proofs.Relation.Meaning

namespace Gridplan

/-- Whether the operator carries no data and, if it is a projection, no condition. -/
def Operator.isPlain : Operator → Bool
  | .source _ _ data => data.isNone
  | .select _ e => e.isNone
  | _ => true

theorem Operator.isPlain_filed {op : Operator} (h : op.isPlain = true) :
    op.filed.isPlain = true := by
  cases op with
  | select names e =>
    cases e with
    | none => rfl
    | some e => cases h
  | _ => simp_all [Operator.isPlain, Operator.filed]

namespace Plan

variable {I : Interpretation} {m : Option Nat} {op : Operator} {is : List Plan} {p q : Plan}
  {R : Relation}

def Plain : Plan → Prop := All fun op is ↦ op.isPlain = true ∧ op.isTyped = true ∧ op.Accepts is

theorem plain_node : Plain (.node m op is) ↔
    (op.isPlain = true ∧ op.isTyped = true ∧ op.Accepts is) ∧ ∀ q ∈ is, q.Plain := all_node

theorem Plain.built (h : p.Plain) : p.Built := All.mono (fun _ _ h ↦ h.2) h

theorem Plain.dataFree (h : p.Plain) : p.DataFree := by
  refine All.mono (fun op is h ↦ ?_) h
  cases op with
  | source id schema data => simpa [Operator.isPlain, Operator.data?] using h.1
  | _ => rfl

theorem Plain.filed (h : p.Plain) (hs : p.isStorable = true) : p.filed.Plain := by
  refine All.remade filed_node (fun op is hop ↦ ?_) (all_and.mpr ⟨h, isStorable_iff.mp hs⟩)
  obtain ⟨⟨hp, ht, ha⟩, hs⟩ := hop
  exact ⟨Operator.isPlain_filed hp, Operator.isTyped_filed ht hs, accepts_filed ha hs⟩

theorem Plain.eq_select (h : p.Plain) (hk : p.kind = .select) :
    ∃ m names q, p = .node m (.select names none) [q] := by
  obtain ⟨m, op, is⟩ := p
  obtain ⟨⟨hp, ht, ha⟩, -⟩ := plain_node.mp h
  cases op with
  | select names e =>
    obtain ⟨q, rfl⟩ := List.length_eq_one_iff.mp ha.length
    obtain rfl : e = none := Option.isNone_iff_eq_none.mp hp
    exact ⟨m, names, q, rfl⟩
  | loose => cases ht
  | _ => cases hk

theorem Plain.offers (h : p.Plain) (hm : p.meaning I = some R) {names : List String}
    (hn : ∀ n ∈ names, n ∈ R.columns) : p.Offers names :=
  h.built.offers hm hn

/-- Whether one plan can stand for another: it can be stored, states the same schema and computes the
same relation. -/
structure Stands (I : Interpretation) (p q : Plan) : Prop where
  plain : q.Plain
  storable : q.isStorable = true
  schema : q.schema? = p.schema?
  meaning : q.meaning I = p.meaning I

theorem Stands.filed (h : Stands I p q) : Stands I p q.filed where
  plain := h.plain.filed h.storable
  storable := isStorable_filed q
  schema := (schema?_filed q).trans h.schema
  meaning := (meaning_filed h.storable).trans h.meaning

theorem Stands.node {g : Plan → Plan} (hp : (Plan.node m op is).Plain)
    (hs : op.isStorable = true) (h : ∀ q ∈ is, Stands I q (g q)) :
    Stands I (.node m op is) (.node m op (is.map g)) := by
  obtain ⟨⟨hplain, ht, ha⟩, -⟩ := plain_node.mp hp
  refine ⟨plain_node.mpr ⟨⟨hplain, ht, ha.congr ?_⟩, ?_⟩, ?_, ?_, ?_⟩
  · rw [List.forall₂_map_right_iff, List.forall₂_same]
    exact fun q hq ↦ (h q hq).schema
  · intro q hq
    obtain ⟨r, hr, rfl⟩ := List.mem_map.mp hq
    exact (h r hr).plain
  · exact isStorable_node.mpr ⟨hs, List.forall_mem_map.mpr fun q hq ↦ (h q hq).storable⟩
  · cases op <;> rfl
  · refine (meaning_congr rfl ?_).symm
    rw [List.forall₂_map_right_iff, List.forall₂_same]
    exact fun q hq ↦ (h q hq).meaning.symm

end Plan

namespace Optimize

variable {I : Interpretation} {rule : Rule} {m : Option Nat} {op : Operator} {is : List Plan}

theorem changed_eq {p : Plan} {r : Option Plan} (h : step rule p = .ok r) : changed rule p = r := by
  rw [changed, h]

theorem isSome_changed {p q : Plan} (h : step rule p = .ok (some q)) :
    (changed rule p).isSome = true := by
  rw [changed_eq h, Option.isSome_some]

theorem after_eq {p : Plan} {r : Option Plan} (h : step rule p = .ok r) :
    after rule p = r.getD p := by
  rw [after, changed_eq h]

structure Rebuilt (rule : Rule) (m : Option Nat) (op : Operator) (is : List Plan) : Prop where
  finishes : ∃ r, step rule (.node m op is) = .ok r
  changes : (changed rule (.node m op is)).isSome = is.any fun q ↦ (changed rule q).isSome
  result : after rule (.node m op is) =
    if is.any fun q ↦ (changed rule q).isSome then (Plan.node m op (is.map (after rule))).filed
    else .node m op (is.map (after rule))

theorem rebuilt (h : ∀ p ∈ is, ∃ r, step rule p = .ok r)
    (hsame : ∀ p ∈ is, ∀ q, changed rule p = some q → q.same p = .ok false)
    (hrule : rule op (is.map (after rule)) = .ok none) (hp : (Plan.node m op is).Plain)
    (hs : (Plan.node m op is).isStorable = true) (hin : ∀ q ∈ is, Plan.Stands I q (after rule q)) :
    Rebuilt rule m op is := by
  have hstep := step_rebuild h hsame hrule hp.built hs (fun q hq ↦ (hin q hq).plain.built)
    (fun q hq ↦ (hin q hq).storable) (fun q hq ↦ (hin q hq).schema)
  have hnot : (is.all fun q ↦ (changed rule q).isNone) = !is.any fun q ↦ (changed rule q).isSome := by
    rw [Bool.eq_iff_iff]
    simp
  rw [hnot] at hstep
  cases hc : is.any fun q ↦ (changed rule q).isSome with
  | true =>
    rw [hc] at hstep
    exact ⟨⟨_, hstep⟩, by rw [changed_eq hstep, hc]; rfl, by rw [after_eq hstep, hc]; rfl⟩
  | false =>
    rw [hc] at hstep
    have hsame : is.map (after rule) = is := by
      refine (List.map_congr_left fun q hq ↦ ?_).trans (List.map_id' is)
      have hq : changed rule q = none := by
        simpa using List.any_eq_false.mp hc q hq
      rw [after, hq]
      rfl
    exact ⟨⟨_, hstep⟩, by rw [changed_eq hstep, hc]; rfl, by rw [after_eq hstep, hc, hsame]; rfl⟩

theorem Rebuilt.mid_or_filed (h : Rebuilt rule m op is) :
    after rule (.node m op is) = .node m op (is.map (after rule)) ∨
      after rule (.node m op is) = (Plan.node m op (is.map (after rule))).filed := by
  rw [h.result]
  split
  · exact .inr rfl
  · exact .inl rfl

theorem Rebuilt.stands (h : Rebuilt rule m op is) (hp : (Plan.node m op is).Plain)
    (hs : op.isStorable = true) (hin : ∀ q ∈ is, Plan.Stands I q (after rule q)) :
    Plan.Stands I (.node m op is) (after rule (.node m op is)) := by
  have hmid := Plan.Stands.node (m := m) hp hs hin
  rcases h.mid_or_filed with hr | hr
  · rw [hr]
    exact hmid
  · rw [hr]
    exact hmid.filed

theorem Rebuilt.fold {α : Type} (h : Rebuilt rule m op is) (f : Kind → List α → α) :
    (after rule (.node m op is)).fold f = f op.kind (is.map fun q ↦ (after rule q).fold f) := by
  have hmid : (after rule (.node m op is)).fold f =
      (Plan.node m op (is.map (after rule))).fold f := by
    rcases h.mid_or_filed with hr | hr
    · rw [hr]
    · rw [hr, Plan.fold_filed]
  rw [hmid, Plan.fold_node, List.map_map]
  rfl

theorem Rebuilt.kind (h : Rebuilt rule m op is) : (after rule (.node m op is)).kind = op.kind := by
  rcases h.mid_or_filed with hr | hr
  · rw [hr]
    rfl
  · rw [hr, Plan.kind, Plan.op_filed]
    exact Operator.kind_filed op

section Tests

variable {f : Operator → List Plan → Bool}

theorem Rebuilt.here (h : Rebuilt rule m op is)
    (hf : ∀ op is, f op.filed (is.map Plan.filed) = f op is) :
    f (after rule (.node m op is)).op (after rule (.node m op is)).inputs =
      f op (is.map (after rule)) := by
  rcases h.mid_or_filed with hr | hr
  · rw [hr]
    rfl
  · rw [hr, Plan.filed_node]
    exact hf op _

theorem Rebuilt.below (h : Rebuilt rule m op is)
    (hf : ∀ op is, f op.filed (is.map Plan.filed) = f op is) :
    (after rule (.node m op is)).inputs.any (Plan.any f) =
      is.any fun q ↦ (after rule q).any f := by
  have hcomp : Plan.any f ∘ Plan.filed = Plan.any f := funext fun q ↦ Plan.any_filed hf q
  rcases h.mid_or_filed with hr | hr
  · rw [hr, Plan.inputs, List.any_map]
    rfl
  · rw [hr, Plan.filed_node, Plan.inputs, List.any_map, hcomp, List.any_map]
    rfl

end Tests

end Optimize

end Gridplan
