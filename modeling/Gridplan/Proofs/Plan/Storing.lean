import Gridplan.Proofs.Plan.Nodes
import Gridplan.Proofs.Plan.Reading

namespace Gridplan.Plan

variable {is : List Plan} {p : Plan} {news : List Plan} {op : Operator}

mutual

def filed : Plan → Plan
  | .node _ op is => .node none op.filed (filedList is)

def filedList : List Plan → List Plan
  | [] => []
  | p :: ps => filed p :: filedList ps

end

theorem filed_node (m : Option Nat) (op : Operator) (is : List Plan) :
    filed (.node m op is) = .node none op.filed (is.map filed) := by
  rw [filed, eq_map_of_cons (g := filedList) rfl fun _ _ ↦ rfl]

@[simp] theorem op_filed (p : Plan) : p.filed.op = p.op.filed := by
  obtain ⟨m, op, is⟩ := p
  rw [filed_node]
  rfl

def Built : Plan → Prop := All fun op is ↦ op.isTyped = true ∧ op.Accepts is

theorem built_node {m : Option Nat} :
    Built (.node m op is) ↔ (op.isTyped = true ∧ op.Accepts is) ∧ ∀ q ∈ is, q.Built := all_node

def isStorable (p : Plan) : Bool := !p.any fun op _ ↦ !op.isStorable

theorem isStorable_iff : p.isStorable = true ↔ p.All fun op _ ↦ op.isStorable = true := by
  simp [isStorable, any_eq_false_iff]

theorem isStorable_node {m : Option Nat} : isStorable (.node m op is) = true ↔
    op.isStorable = true ∧ ∀ q ∈ is, q.isStorable = true := by
  simp only [isStorable_iff, all_node]

theorem isStorable_filed (p : Plan) : p.filed.isStorable = true := by
  induction p with
  | node m op is ih =>
    rw [filed_node, isStorable_node]
    exact ⟨op.isStorable_filed, List.forall_mem_map.mpr ih⟩

theorem any_filed {f : Operator → List Plan → Bool} (h : ∀ op is, f op.filed (is.map filed) = f op is)
    (p : Plan) : p.filed.any f = p.any f := by
  induction p with
  | node m op is ih =>
    rw [filed_node, any_node, any_node, h, List.any_map]
    exact congrArg _ (list_any_congr ih)

@[simp] theorem schema?_filed (p : Plan) : p.filed.schema? = p.schema? := by
  obtain ⟨m, op, is⟩ := p
  rw [filed_node]
  cases op <;> rfl

theorem accepts_filed (h : op.Accepts is) (hs : op.isStorable = true) :
    op.filed.Accepts (is.map filed) := by
  have hsame : op.Accepts (is.map filed) := by
    refine h.congr ?_
    rw [List.forall₂_map_right_iff, List.forall₂_same]
    exact fun p _ ↦ schema?_filed p
  have hlen := hsame.length
  generalize is.map filed = js at hsame hlen
  cases op with try obtain ⟨p, rfl⟩ := List.length_eq_one_iff.mp hlen
  | filter e => exact ⟨Expr.isFilled_filed hs hsame.1, offers_nil _⟩
  | withColumn name e => exact ⟨hsame.1, Expr.isFilled_filed hs hsame.2.1, offers_nil _⟩
  | _ => exact hsame

theorem isTyped_of_built (h : p.Built) : p.op.isTyped = true := by
  obtain ⟨m, op, is⟩ := p
  exact (built_node.mp h).1.1

theorem isStorable_op (h : p.isStorable = true) : p.op.isStorable = true := by
  obtain ⟨m, op, is⟩ := p
  exact (isStorable_node.mp h).1

theorem Built.filed (h : p.Built) (hs : p.isStorable = true) : p.filed.Built := by
  refine All.remade filed_node (fun op is hop ↦ ?_) (all_and.mpr ⟨h, isStorable_iff.mp hs⟩)
  obtain ⟨⟨ht, ha⟩, hs⟩ := hop
  exact ⟨Operator.isTyped_filed ht hs, accepts_filed ha hs⟩

def IsRead (p : Plan) : Prop :=
  ∃ fs, p.toDatum = .ok (.record fs) ∧
    ∀ n, (Datum.record fs).depth ≤ n → decode n (.record fs) = .ok p.filed

theorem listToDatum_read (h : ∀ p ∈ is, p.IsRead) :
    ∃ ds, listToDatum is = .ok ds ∧ ds.length = is.length ∧ (∀ d ∈ ds, ∃ fs, d = .record fs) ∧
      ∀ n, Datum.depthList ds ≤ n → ds.mapM (decode n) = .ok (is.map filed) := by
  induction is with
  | nil => exact ⟨[], rfl, rfl, by simp, fun _ _ ↦ rfl⟩
  | cons p ps ih =>
    obtain ⟨fs, hp, hdec⟩ := h p (by simp)
    obtain ⟨ds, hds, hlen, hrec, hdecs⟩ := ih fun q hq ↦ h q (by simp [hq])
    refine ⟨.record fs :: ds, by simp [listToDatum, hp, hds], by simp [hlen], ?_, fun n hn ↦ ?_⟩
    · simpa using hrec
    · simp only [Datum.depthList] at hn
      rw [List.mapM_cons, hdec n (by omega), Outcome.ok_bind, hdecs n (by omega)]
      rfl

/-- The record of a node has the records of its inputs in it. -/
theorem toDatum_fields {m : Option Nat} (hb : Built (.node m op is)) (hs : op.isStorable = true)
    (h : ∀ q ∈ is, q.IsRead) :
    ∃ ds, toDatum (.node m op is) = .ok (.record (op.fields ds)) ∧ listToDatum is = .ok ds ∧
      ds.length = op.kind.arity ∧ (∀ d ∈ ds, ∃ fs, d = .record fs) ∧
      ∀ n, Datum.depthList ds ≤ n → ds.mapM (decode n) = .ok (is.map filed) := by
  obtain ⟨⟨ht, ha⟩, -⟩ := built_node.mp hb
  obtain ⟨ds, hds, hlen, hrec, hdec⟩ := listToDatum_read h
  refine ⟨ds, ?_, hds, hlen.trans ha.length, hrec, hdec⟩
  rw [toDatum_node ht ha.length (by simp [hds]), hds, if_pos hs]
  rfl

theorem isRead_of_isStorable (hb : p.Built) (hs : p.isStorable = true) : p.IsRead := by
  induction p with
  | node m op is ih =>
    obtain ⟨⟨ht, ha⟩, hbs⟩ := built_node.mp hb
    obtain ⟨hop, his⟩ := isStorable_node.mp hs
    obtain ⟨ds, hd, -, hlen, hrec, hdec⟩ :=
      toDatum_fields hb hop fun q hq ↦ ih q hq (hbs q hq) (his q hq)
    have hfiles := op.files_fields hlen hrec
    refine ⟨op.fields ds, hd, fun n hn ↦ ?_⟩
    have hdepth := hfiles.depth
    simp only [Datum.depth] at hn
    obtain ⟨n, rfl⟩ : ∃ k, n = k + 1 := ⟨n - 1, by omega⟩
    rw [decode_of_files ht hop hfiles (hdec n (by omega)), filed_node]
    · exact ⟨accepts_filed ha hop, rfl⟩
    · exact List.forall_mem_map.mpr fun q hq ↦ isTyped_of_built ((hbs q hq).filed (his q hq))

theorem listToDatum_error (hb : ∀ p ∈ is, p.Built)
    (herr : ∀ p ∈ is, p.isStorable = false → p.toDatum = .error .member)
    (hs : is.all isStorable = false) : listToDatum is = .error .member := by
  induction is with
  | nil => cases hs
  | cons p ps ih =>
    cases hp : p.isStorable with
    | false => simp [listToDatum, herr p (by simp) hp]
    | true =>
      obtain ⟨fs, hd, -⟩ := isRead_of_isStorable (hb p (by simp)) hp
      have hps : ps.all isStorable = false := by simpa [hp] using hs
      have := ih (fun q hq ↦ hb q (by simp [hq])) (fun q hq ↦ herr q (by simp [hq])) hps
      simp [listToDatum, hd, this]

theorem toDatum_not_isStorable (hb : p.Built) (hs : p.isStorable = false) :
    p.toDatum = .error .member := by
  induction p with
  | node m op is ih =>
    obtain ⟨⟨ht, ha⟩, hbs⟩ := built_node.mp hb
    have herr : ∀ q ∈ is, q.isStorable = false → q.toDatum = .error .member :=
      fun q hq ↦ ih q hq (hbs q hq)
    cases hall : is.all isStorable with
    | true =>
      obtain ⟨ds, hds, -⟩ := listToDatum_read fun q hq ↦
        isRead_of_isStorable (hbs q hq) (List.all_eq_true.mp hall q hq)
      have hop : op.isStorable = false := Bool.eq_false_iff.mpr fun hop ↦
        Bool.eq_false_iff.mp hs (isStorable_node.mpr ⟨hop, List.all_eq_true.mp hall⟩)
      rw [toDatum_node ht ha.length (by simp [hds]), hop]
      rfl
    | false =>
      have hl := listToDatum_error hbs herr hall
      rw [toDatum_node ht ha.length (by simp [hl]), hl]
      simp

theorem withInputs_eq_ok {p q : Plan} (hb : p.Built) (hs : p.isStorable = true) (hne : news ≠ [])
    (hnb : ∀ q ∈ news, q.Built) (hns : ∀ q ∈ news, q.isStorable = true) :
    p.withInputs news = .ok q ↔
      p.op.filed.Accepts (news.map filed) ∧ q = fresh p.op.filed (news.map filed) := by
  obtain ⟨m, op, is⟩ := p
  obtain ⟨⟨ht, -⟩, hbs⟩ := built_node.mp hb
  obtain ⟨hop, his⟩ := isStorable_node.mp hs
  obtain ⟨olds, hp, -, hlen, hrec, -⟩ :=
    toDatum_fields hb hop fun q hq ↦ isRead_of_isStorable (hbs q hq) (his q hq)
  obtain ⟨ds, hds, hdlen, -, hdec⟩ := listToDatum_read fun q hq ↦
    isRead_of_isStorable (hnb q hq) (hns q hq)
  have hdne : ds ≠ [] := by
    rintro rfl
    exact hne (List.length_eq_zero_iff.mp hdlen.symm)
  have hfiles := files_withInputs (op.files_fields hlen hrec) hdne
  have hdepth := hfiles.depth
  simp only [withInputs, hp, hds, Outcome.ok_bind, Datum.fields, ofDatum, Datum.depth]
  refine decode_of_files ht hop hfiles (hdec _ hdepth) ?_
  exact List.forall_mem_map.mpr fun q hq ↦ isTyped_of_built ((hnb q hq).filed (hns q hq))

theorem withInputs_error (hb : p.Built) (hnb : ∀ q ∈ news, q.Built)
    (h : p.isStorable = false ∨ news.all isStorable = false) :
    p.withInputs news = .error .member := by
  cases hs : p.isStorable with
  | false => simp [withInputs, toDatum_not_isStorable hb hs]
  | true =>
    have hn : news.all isStorable = false := by simpa [hs] using h
    obtain ⟨fs, hfs, -⟩ := isRead_of_isStorable hb hs
    have hl := listToDatum_error hnb (fun q hq ↦ toDatum_not_isStorable (hnb q hq)) hn
    simp [withInputs, hfs, hl]

end Gridplan.Plan
