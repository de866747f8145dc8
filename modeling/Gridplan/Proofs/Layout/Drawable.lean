import Gridplan.Proofs.Layout.Run
import Gridplan.Proofs.Layout.Success

namespace Gridplan

open Layout
open Outcome (Succeeds succeeds_bind_iff)

/-- Whether the columns of the inputs suit an operator, and all it needs besides. -/
def Operator.Suits (sources : Sources) : Operator → List Plan → Prop
  | .source _ schema _, _ => schema.getD [] ≠ []
  | .select names c, [p] => names ≠ [] ∧ names ⊆ p.columns ∧
    ∀ e ∈ c, e.truthy = true → e.columns ⊆ p.columns
  | .filter e, [p] => p.columns ≠ [] ∧ e.columns ⊆ p.columns
  | .join leftOn rightOn _ _, [p, q] =>
    (∃ k ∈ leftOn.head?, k ∈ p.columns) ∧ ∃ k ∈ rightOn.head?, k ∈ q.columns
  | .groupBy keys aggs _ _, [p] => keys ≠ [] ∧ keys ⊆ p.columns ∧
    ∀ a ∈ aggs, Succeeds (conditional a.func) ∧ (a.func ≠ "count" → a.column ∈ p.columns)
  | .aggregate aggs, [p] => aggs ≠ [] ∧
    ∀ a ∈ aggs, Succeeds (total a.func) ∧ a.column ∈ p.columns
  | .sort keys _ c, [p] => p.columns ≠ [] ∧ (∀ k ∈ keys, k.column ∈ p.columns) ∧
    ∀ e ∈ c, e.truthy = true → e.columns ⊆ p.columns
  | .limit _ _, [p] => p.columns ≠ []
  | .withColumn _ e, [p] => e.columns ⊆ p.columns
  | .union, [p, _] => p.columns ≠ []
  | .pivot index columns values aggfunc, [p] => ∃ name, index = [name] ∧ name ∈ p.columns ∧
    columns ∈ p.columns ∧ values ∈ p.columns ∧ aggfunc.getD "first" ∈ pivotFunctions ∧
    Succeeds (knownValues sources (some p) columns) ∧ Succeeds (knownValues sources (some p) name)
  | .melt idVars valueVars _ _, [p] => idVars ≠ [] ∧ idVars ⊆ p.columns ∧
    melted p.columns idVars valueVars ≠ [] ∧ melted p.columns idVars valueVars ⊆ p.columns
  | .window func input _ partitionBy orderBy frame, [p] =>
    windowSuits p.columns func input partitionBy frame ∧ (p.isVacant sources = false →
      windowOrders func = true → ordersBy p.columns partitionBy orderBy)
  | _, _ => False

/-- Whether the conditions of an operator can be translated. One that does not count as given is
not looked at, except by a filter. -/
def Operator.isLegible : Operator → Bool
  | .select _ c | .sort _ _ c => c.all fun e ↦ !e.truthy || e.isLegible
  | .filter e => e.isLegible
  | _ => true

def Operator.Agrees : Operator → List Plan → Prop
  | .union, [p, q] => p.columns = q.columns
  | _, _ => True

theorem Operator.Suits.length {sources : Sources} {op : Operator} {is : List Plan}
    (h : op.Suits sources is) (hk : op.kind ≠ .source) : is.length = op.kind.arity := by
  unfold Operator.Suits at h
  split at h <;> simp_all [Operator.kind, Kind.arity]

/-- Whether all nodes of a plan can be laid out. -/
def Plan.Drawable (sources : Sources) : Plan → Prop :=
  Plan.All fun op is ↦ op.Suits sources is ∧ op.isLegible = true ∧ op.Agrees is

namespace Layout

open Formula

variable {sources : Sources} {op : Operator} {is : List Plan} {bs : List Block} {counter : Nat}

/-- Whether a block is as the layout of a plan is. -/
structure Matches (sources : Sources) (p : Plan) (b : Block) : Prop where
  rooted : Rooted b
  schema : b.schema = p.columns
  vacant : (b.range.rowEnd == 0) = p.isVacant sources

theorem succeeds_only {α : Type} {C : Prop} {f : Block → Outcome α} (kind : Kind)
    (h : List.Forall₂ (Matches sources) is bs) (hC : C → is.length = 1)
    (hf : ∀ p b, is = [p] → Matches sources p b → (Succeeds (f b) ↔ C)) :
    Succeeds (only kind bs >>= f) ↔ C := by
  match h with
  | .nil => exact iff_of_false (by simp [only]) fun h ↦ by simpa using hC h
  | .cons hp .nil => exact hf _ _ rfl hp
  | .cons _ (.cons _ _) => exact iff_of_false (by simp [only]) fun h ↦ by simpa using hC h

theorem succeeds_both {α : Type} {C : Prop} {f : Block × Block → Outcome α} (kind : Kind)
    (h : List.Forall₂ (Matches sources) is bs) (hC : C → is.length = 2)
    (hf : ∀ p q l r, is = [p, q] → Matches sources p l → Matches sources q r →
      (Succeeds (f (l, r)) ↔ C)) :
    Succeeds (both kind bs >>= f) ↔ C := by
  match h with
  | .nil => exact iff_of_false (by simp [both]) fun h ↦ by simpa using hC h
  | .cons _ .nil => exact iff_of_false (by simp [both]) fun h ↦ by simpa using hC h
  | .cons hp (.cons hq .nil) => exact hf _ _ _ _ rfl hp hq
  | .cons _ (.cons _ (.cons _ _)) =>
    exact iff_of_false (by simp [both]) fun h ↦ by simpa using hC h

theorem legible_and_columns {c : Option Expr} {s : List String} :
    (∀ e ∈ c, e.truthy = true → e.isLegible = true ∧ e.columns ⊆ s) ↔
      (∀ e ∈ c, e.truthy = true → e.columns ⊆ s) ∧
        (c.all fun e ↦ !e.truthy || e.isLegible) = true := by
  cases c with
  | none => simp
  | some e =>
    cases he : e.truthy <;> simp [he, and_comm]

section Nodes

attribute [local simp] Operator.kind Operator.Suits Operator.isLegible Operator.Agrees

/-- A node can be laid out over the blocks of its inputs if these suit it, its conditions can be
translated and, for a union, the inputs agree. -/
theorem succeeds_placeNode (ht : op.isTyped = true) (h : List.Forall₂ (Matches sources) is bs) :
    Succeeds (placeNode sources counter op is bs) ↔
      op.Suits sources is ∧ op.isLegible = true ∧ op.Agrees is := by
  have hlen (hk : op.kind ≠ .source)
      (hC : op.Suits sources is ∧ op.isLegible = true ∧ op.Agrees is) :
      is.length = op.kind.arity := hC.1.length hk
  cases op with try (refine succeeds_only _ h (hlen (by simp)) ?_; rintro p b rfl hb)
  | source id schema data =>
    exact succeeds_source.trans (by simp)
  | select names c =>
    rw [succeeds_select hb.rooted, hb.schema, legible_and_columns]
    simp [and_assoc]
  | filter e =>
    rw [succeeds_filter hb.rooted, hb.schema]
    simp [and_assoc]
    exact fun _ ↦ and_comm
  | join leftOn rightOn kind suffixes =>
    refine succeeds_both _ h (hlen (by simp)) ?_
    rintro p q l r rfl hl hr
    refine (succeeds_join (s := ⟨l, r, leftOn, rightOn⟩) hl.rooted hr.rooted kind).trans ?_
    simp [hl.schema, hr.schema]
  | groupBy keys aggs order cap =>
    rw [succeeds_groupBy, hb.schema]
    simp
  | aggregate aggs =>
    rw [succeeds_aggregate, hb.schema]
    simp
  | sort keys cap c =>
    have hsort := @succeeds_sort counter b c hb.rooted keys (cap.map Int.toNat)
    rw [Option.map_map, hb.schema, legible_and_columns] at hsort
    refine hsort.trans ?_
    simp [and_assoc]
  | limit count side =>
    rw [succeeds_limit hb.rooted, hb.schema]
    simp
  | withColumn name e =>
    rw [succeeds_withColumn hb.rooted, hb.schema]
    simp
  | union =>
    refine succeeds_both _ h (hlen (by simp)) ?_
    rintro p q l r rfl hl hr
    rw [succeeds_union hl.rooted hr.rooted, hl.schema, hr.schema]
    simp
  | pivot index columns values aggfunc =>
    refine (succeeds_bind_iff fun cols _ ↦ succeeds_bind_iff fun rows _ ↦ succeeds_pivot).trans ?_
    simp only [hb.schema, Operator.Suits, Operator.isLegible, Operator.Agrees, and_true,
      List.head?_cons]
    constructor
    · rintro ⟨hcols, hrows, name, rfl, h₁, h₂, h₃, h₄⟩
      exact ⟨name, rfl, h₁, h₂, h₃, h₄, hcols, hrows⟩
    · rintro ⟨name, rfl, h₁, h₂, h₃, h₄, hcols, hrows⟩
      exact ⟨hcols, hrows, name, rfl, h₁, h₂, h₃, h₄⟩
  | melt idVars valueVars varName valueName =>
    rw [succeeds_melt hb.rooted, hb.schema]
    simp
  | window func input output partitionBy orderBy frame =>
    rw [succeeds_window hb.rooted, hb.schema]
    simp [← hb.vacant]
  | bare | loose => cases ht

end Nodes

theorem placeNode_matches (ht : op.isTyped = true) (h : List.Forall₂ (Matches sources) is bs)
    (m : Option Nat) : Outcome.Ensures (placeNode sources counter op is bs)
      fun P ↦ Matches sources (.node m op is) P.block := by
  have hblocks : ∀ b ∈ bs, Rooted b ∧ b.sheet ∈ bs.map (·.sheet) := by
    intro b hb
    obtain ⟨p, -, hp⟩ := exists_of_forall₂ h hb
    exact ⟨hp.rooted, List.mem_map_of_mem hb⟩
  have hschemas : bs.map (·.schema) = is.map Plan.columns :=
    map_eq_map_of_forall₂ (h.imp fun _ _ hp ↦ hp.schema)
  have hvacant : bs.map (·.range.rowEnd == 0) = is.map (Plan.isVacant sources) :=
    map_eq_map_of_forall₂ (h.imp fun _ _ hp ↦ hp.vacant)
  refine (placeNode_placed sources ht is hblocks).mono fun P ⟨last, parts, hP, hlast⟩ ↦ ?_
  refine ⟨hP.rooted, ?_, ?_⟩
  · rw [hP.schema, hschemas, Plan.columns_node]
  · rw [hP.last, hlast, hvacant, Plan.isVacant_node]

variable {root p : Plan} {s : Progress} {nodes : List Plan}

/-- Whether what is laid out for some nodes of a plan is as their layouts are. -/
structure Charted (sources : Sources) (root : Plan) (s : Progress) (nodes : List Plan) : Prop where
  shared : ∀ x ∈ s.shared, ∀ n ∈ root.occurrences, n.mark = some x.1 →
    Matches sources n x.2 ∧ n.Drawable sources
  blocks : List.Forall₂ (Matches sources) nodes s.blocks

theorem charted_nil : Charted sources root {} [] := ⟨by simp, .nil⟩

theorem Charted.add (h : Charted sources root s nodes) (hroot : root.Coherent) {m : Option Nat}
    (hp : .node m op is ∈ root.occurrences) {P : Placement}
    (hP : Matches sources (.node m op is) P.block) (hd : Plan.Drawable sources (.node m op is)) :
    Charted sources root (s.add m P) (nodes ++ [.node m op is]) where
  shared := by
    intro x hx n hn hnx
    cases m with
    | none => exact h.shared x hx n hn hnx
    | some k =>
      rcases List.mem_cons.mp hx with rfl | hx
      · obtain rfl := hroot.same n hn _ hp k hnx rfl
        exact ⟨hP, hd⟩
      · exact h.shared x hx n hn hnx
  blocks := List.rel_append h.blocks (.cons hP .nil)

theorem kept_charted (hb : root.Built) (hc : root.Coherent) :
    Kept sources root (Charted sources root) fun _ n b ↦
      Matches sources n b ∧ n.Drawable sources where
  known := fun h ↦ h.shared
  old := fun _ _ h ↦ h
  step := by
    intro s nodes m op is bs P hp h hbs hP
    obtain ⟨⟨ht, -⟩, -⟩ := Plan.built_node.mp (Plan.all_of_mem hb hp)
    have hmatches : List.Forall₂ (Matches sources) is bs := hbs.imp fun _ _ h ↦ h.1
    have hmatch := placeNode_matches ht hmatches m P hP
    have hd : Plan.Drawable sources (.node m op is) := by
      refine Plan.all_node.mpr ⟨(succeeds_placeNode ht hmatches).mp ⟨P, hP⟩, fun i hi ↦ ?_⟩
      obtain ⟨b, -, hb⟩ := exists_of_forall₂ hbs.flip hi
      exact hb.2
    exact ⟨h.add hc hp hmatch hd, hmatch, hd⟩

theorem succeeds_placeInputs {I : Progress → List Plan → Prop} {J : Progress → Plan → Block → Prop}
    (hext : ∀ i ∈ is, Extends sources I J i)
    (his : ∀ i ∈ is, ∀ s nodes, Reached I s nodes → Succeeds (placePlan sources i s))
    (h : Reached I s nodes) : Succeeds (placeInputs sources is s) := by
  induction is generalizing s nodes with
  | nil => exact ⟨_, rfl⟩
  | cons i is ih =>
    obtain ⟨hext, hexts⟩ := List.forall_mem_cons.mp hext
    obtain ⟨hi, his⟩ := List.forall_mem_cons.mp his
    obtain ⟨⟨b, s'⟩, hx⟩ := hi s nodes h
    obtain ⟨y, hy⟩ := ih hexts his (hext s nodes h _ hx).1
    exact ⟨(b :: y.1, y.2), by simp [placeInputs, hx, hy]⟩

theorem succeeds_placePlan (hb : root.Built) (hc : root.Coherent) (hp : p ∈ root.occurrences)
    (hd : p.Drawable sources) (h : Reached (Charted sources root) s nodes) :
    Succeeds (placePlan sources p s) := by
  induction p generalizing s nodes with
  | node m op is ih =>
    have hin := Plan.mem_occurrences_input hp
    obtain ⟨⟨ht, -⟩, -⟩ := Plan.built_node.mp (Plan.all_of_mem hb hp)
    obtain ⟨hop, hds⟩ := Plan.all_node.mp hd
    have hext : ∀ i ∈ is, Extends sources (Charted sources root) (fun _ n b ↦
        Matches sources n b ∧ n.Drawable sources) i := fun i hi ↦
      (kept_charted hb hc).placePlan (hin i hi)
    rw [placePlan]
    split
    · exact ⟨_, rfl⟩
    · obtain ⟨⟨bs, s'⟩, hx⟩ := succeeds_placeInputs hext
        (fun i hi s nodes ↦ ih i hi (hin i hi) (hds i hi)) h
      obtain ⟨-, hbs, -⟩ := placeInputs_extends hext h _ hx
      have hnode : Succeeds (placeNode sources s'.counter op is bs) :=
        (succeeds_placeNode ht (hbs.imp fun _ _ h ↦ h.1)).mpr hop
      obtain ⟨P, hP⟩ := hnode
      exact ⟨(P.block, s'.add m P), by simp [hx, hP]⟩

theorem succeeds_layOut (hp : p.Built) (hc : p.Coherent) (optimized : Bool) :
    Succeeds (layOut p sources optimized) ↔
      ∃ q, chosen p optimized = .ok q ∧ q.Drawable sources := by
  rw [layOut_eq, Outcome.succeeds_bind]
  refine exists_congr fun q ↦ and_congr_right fun hq ↦ Outcome.succeeds_bind_ok.trans ?_
  have hb := chosen_built hp hq
  have hc := chosen_coherent hp hc hq
  have hs : Reached (Charted sources q) {} [] := ⟨rfl, charted_nil⟩
  have hq := Plan.mem_occurrences_self q
  constructor
  · rintro ⟨x, hx⟩
    exact ((kept_charted hb hc).placePlan hq _ _ hs x hx).2.1.2
  · exact fun hd ↦ succeeds_placePlan hb hc hq hd hs

theorem matches_of_layOut {optimized : Bool} (hp : p.Built) (hc : p.Coherent)
    (h : layOut p sources optimized = .ok s) : ∃ q, chosen p optimized = .ok q ∧
      List.Forall₂ (Matches sources) (q.finished []) s.blocks := by
  obtain ⟨q, hq, hs⟩ := Kept.layOut h (fun _ ↦ charted_nil) fun q hq ↦
    kept_charted (chosen_built hp hq) (chosen_coherent hp hc hq)
  exact ⟨q, hq, hs.blocks⟩

end Layout

end Gridplan
