import Gridplan.Proofs.Plan.Assembly

namespace Gridplan

variable {op : Operator} {is : List Plan}

namespace Datum

mutual

def listed : Datum → Datum
  | .list xs => .list (listedItems xs)
  | .tuple xs => .list (listedItems xs)
  | .record fs => .record (listedFields fs)
  | d => d

def listedItems : List Datum → List Datum
  | [] => []
  | x :: xs => listed x :: listedItems xs

def listedFields : List (String × Datum) → List (String × Datum)
  | [] => []
  | (k, v) :: fs => (k, listed v) :: listedFields fs

end

theorem listedItems_eq (xs : List Datum) : listedItems xs = xs.map listed :=
  eq_map_of_cons rfl (fun _ _ ↦ rfl) xs

theorem listedFields_eq (fs : List (String × Datum)) :
    listedFields fs = fs.map (Prod.map id listed) :=
  eq_map_of_cons rfl (fun _ _ ↦ rfl) fs

theorem listed_list (xs : List Datum) : (Datum.list xs).listed = .list (xs.map listed) := by
  rw [listed, listedItems_eq]

theorem listed_tuple (xs : List Datum) : (Datum.tuple xs).listed = .list (xs.map listed) := by
  rw [listed, listedItems_eq]

theorem listed_record (fs : List (String × Datum)) :
    (Datum.record fs).listed = .record (fs.map (Prod.map id listed)) := by
  rw [listed, listedFields_eq]

@[simp] theorem listed_text (s : String) : (Datum.text s).listed = .text s := rfl

@[simp] theorem listed_int (n : Int) : (Datum.int n).listed = .int n := rfl

@[simp] theorem listed_null : Datum.null.listed = .null := rfl

@[simp] theorem truthy_listed (d : Datum) : d.listed.truthy = d.truthy := by
  cases d with
  | list xs => simp [listed_list, truthy]
  | tuple xs => simp [listed_tuple, truthy]
  | record fs => simp [listed_record, truthy]
  | _ => rfl

mutual

theorem depth_listed : ∀ d : Datum, d.listed.depth = d.depth
  | .list xs => by rw [listed, depth, depth, depth_listedItems xs]
  | .tuple xs => by rw [listed, depth, depth, depth_listedItems xs]
  | .record fs => by rw [listed, depth, depth, depth_listedFields fs]
  | .null | .bool _ | .int _ | .float _ | .text _ => rfl

theorem depth_listedItems : ∀ xs : List Datum, depthList (listedItems xs) = depthList xs
  | [] => rfl
  | x :: xs => by rw [listedItems, depthList, depthList, depth_listed x, depth_listedItems xs]

theorem depth_listedFields : ∀ fs : List (String × Datum),
    depthFields (listedFields fs) = depthFields fs
  | [] => rfl
  | (k, v) :: fs => by
    rw [listedFields, depthFields, depthFields, depth_listed v, depth_listedFields fs]

end

theorem same_zero_listed (d : Datum) : d.listed.same (.int 0) = d.same (.int 0) := by
  cases d with
  | list xs => rfl
  | tuple xs => rfl
  | record fs => rfl
  | _ => rfl

theorem lookup_listed (fs : List (String × Datum)) (name : String) :
    (fs.map (Prod.map id listed)).lookup name = (fs.lookup name).map listed := by
  induction fs with
  | nil => rfl
  | cons f fs ih =>
    obtain ⟨k, v⟩ := f
    rw [List.map_cons, Prod.map, List.lookup_cons, List.lookup_cons, id, ih]
    split <;> rfl

theorem listed_map {α : Type} {write : α → Datum} (xs : List α)
    (h : ∀ x, (write x).listed = write x) :
    (Datum.list (xs.map write)).listed = .list (xs.map write) := by
  rw [listed_list, List.map_map]
  exact congrArg _ (List.map_congr_left fun x _ ↦ h x)

@[simp] theorem listed_ofTexts (names : List String) : (ofTexts names).listed = ofTexts names :=
  listed_map names fun _ ↦ rfl

@[simp] theorem listed_sortKeys (keys : List SortKey) :
    (Datum.list (keys.map SortKey.toList)).listed = .list (keys.map SortKey.toList) :=
  listed_map keys fun _ ↦ rfl

@[simp] theorem listed_aggregations (aggs : List Aggregation) :
    (Datum.list (aggs.map Aggregation.toList)).listed = .list (aggs.map Aggregation.toList) :=
  listed_map aggs fun _ ↦ rfl

@[simp] theorem listed_ofText? (o : Option String) : (ofText? o).listed = ofText? o := by
  cases o <;> rfl

@[simp] theorem listed_ofOption_ofTexts (o : Option (List String)) :
    (ofOption (o.map ofTexts)).listed = ofOption (o.map ofTexts) := by
  cases o with
  | none => rfl
  | some names => exact listed_ofTexts names

end Datum

def Expr.listed : Expr → Expr
  | .raw d => .raw d.listed
  | e => e

namespace Expr

@[simp] theorem columns_listed (e : Expr) : e.listed.columns = e.columns := by
  cases e <;> rfl

@[simp] theorem truthy_listed (e : Expr) : e.listed.truthy = e.truthy := by
  cases e with
  | raw d => exact d.truthy_listed
  | _ => rfl

@[simp] theorem isFilled_listed (e : Expr) : e.listed.isFilled = e.isFilled := by
  cases e with
  | raw d => simp only [listed, isFilled, Datum.truthy_listed, Datum.same_zero_listed]
  | _ => rfl

end Expr

namespace Operator

def listed : Operator → Operator
  | .select names e => .select names (e.map Expr.listed)
  | .filter e => .filter e.listed
  | .sort keys cap e => .sort keys cap (e.map Expr.listed)
  | .withColumn name e => .withColumn name e.listed
  | .window func input output partitionBy orderBy frame =>
    .window func input output partitionBy orderBy frame.listed
  | op => op

@[simp] theorem kind_listed (op : Operator) : op.listed.kind = op.kind := by cases op <;> rfl

theorem isTyped_listed (h : op.isTyped = true) : op.listed.isTyped = true := by
  have hnull : ∀ d : Datum, d ≠ .null → d.listed ≠ .null := by
    intro d hd
    cases d <;> simp_all [Datum.listed]
  cases op with
  | select names e | sort _ _ e =>
    cases e with
    | none => rfl
    | some e =>
      cases e with
      | raw d =>
        have hd : d ≠ .null := by rintro rfl; cases h
        have := hnull d hd
        simp only [listed, Option.map_some, Expr.listed]
        unfold isTyped
        split <;> simp_all
      | _ => rfl
  | loose | bare => exact h
  | _ => rfl

theorem isStorable_listed (h : op.isStorable = true) : op.listed.isStorable = true := by
  have hexpr : ∀ e : Expr, e.isStorable = true → e.listed.isStorable = true := by
    intro e he
    cases e <;> exact he
  cases op with
  | select _ e | sort _ _ e =>
    cases e with
    | none => rfl
    | some e => exact hexpr e h
  | filter e | withColumn _ e => exact hexpr e h
  | _ => rfl

theorem filed_listed (op : Operator) : op.filed.listed.filed = op.filed.listed := by
  cases op with
  | select _ e | sort _ _ e => cases e <;> rfl
  | _ => rfl

theorem Accepts.listed (h : op.Accepts is) : op.listed.Accepts is := by
  have hlen := h.length
  cases op with try obtain ⟨p, rfl⟩ := List.length_eq_one_iff.mp hlen
  | filter e => exact ⟨e.isFilled_listed ▸ h.1, e.columns_listed ▸ h.2⟩
  | withColumn name e => exact ⟨h.1, e.isFilled_listed ▸ h.2.1, e.columns_listed ▸ h.2.2⟩
  | _ => exact h

open Plan (restore restored) in
theorem restore_listed (h : op.isTyped = true) :
    ((op.required ++ op.optional).map (Prod.map id Datum.listed)).mapM (restore op.kind) =
      (op.filed.listed.required ++ op.filed.listed.optional).mapM (restore op.kind) := by
  have hcond : ∀ e : Option Expr, ((e.map fun e ↦ ("predicate", e.record)).toList.map
      (Prod.map id Datum.listed)) =
        ((e.map Expr.filed).map Expr.listed |>.map fun e ↦ ("predicate", e.record)).toList := by
    intro e
    cases e <;> rfl
  have hcap : ∀ cap : Option Int, (cap.map fun n ↦ ("limit", Datum.int n)).toList.map
      (Prod.map id Datum.listed) = (cap.map fun n ↦ ("limit", Datum.int n)).toList := by
    intro cap
    cases cap <;> rfl
  cases op with
  | loose | bare => cases h
  | join leftOn rightOn kind suffixes =>
    simp [required, optional, filed, listed, restore, restored, Operator.kind, Datum.items,
      Datum.listed_tuple]
  | select names e =>
    simp only [required, optional, filed, listed, List.map_append, hcond]
    simp
  | sort keys cap e =>
    simp only [required, optional, filed, listed, List.map_append, hcond, hcap]
    simp
  | groupBy keys aggs order cap =>
    simp only [required, optional, filed, listed, List.map_append, hcap]
    cases order.isEmpty <;> simp
  | filter e | withColumn _ e => rfl
  | _ => simp [required, optional, filed, listed]

end Operator

namespace Plan

variable {ds : List Datum}

mutual

def printed : Plan → Plan
  | .node _ op is => .node none op.filed.listed (printedList is)

def printedList : List Plan → List Plan
  | [] => []
  | p :: ps => printed p :: printedList ps

end

theorem printed_node (m : Option Nat) (op : Operator) (is : List Plan) :
    printed (.node m op is) = .node none op.filed.listed (is.map printed) := by
  rw [printed, eq_map_of_cons (g := printedList) rfl fun _ _ ↦ rfl]

@[simp] theorem schema?_printed (p : Plan) : p.printed.schema? = p.schema? := by
  obtain ⟨m, op, is⟩ := p
  rw [printed_node]
  cases op <;> rfl

variable {p : Plan}

theorem accepts_printed (h : op.Accepts is) (hs : op.isStorable = true) :
    op.filed.listed.Accepts (is.map printed) := by
  refine (accepts_filed h hs).listed.congr ?_
  rw [List.forall₂_map_left_iff, List.forall₂_map_right_iff, List.forall₂_same]
  exact fun i _ ↦ (schema?_printed i).trans (schema?_filed i).symm

theorem Built.printed (h : p.Built) (hs : p.isStorable = true) : p.printed.Built := by
  refine All.remade printed_node (fun op is hop ↦ ?_) (all_and.mpr ⟨h, isStorable_iff.mp hs⟩)
  obtain ⟨⟨ht, ha⟩, hs⟩ := hop
  exact ⟨Operator.isTyped_listed (Operator.isTyped_filed ht hs), accepts_printed ha hs⟩

theorem inputRecords_listed (hlen : ds.length = op.kind.arity)
    (hrec : ∀ d ∈ ds, ∃ fs, d = .record fs) :
    inputRecords (.record ((op.fields ds).map (Prod.map id Datum.listed))) =
      .ok (ds.map Datum.listed) := by
  have hlookup := op.lookup_inputs ds
  cases hu : op.kind.isUnary with
  | true =>
    obtain ⟨d, rfl⟩ := List.length_eq_one_iff.mp (Operator.length_of_isUnary hlen hu)
    obtain ⟨fs, rfl⟩ := hrec d (by simp)
    rw [hu, if_pos rfl] at hlookup
    rw [List.map_singleton, Datum.listed_record]
    refine inputRecords_one ?_ ?_
    · rw [Datum.lookup_listed, hlookup.1, Option.map_none]
    · rw [Datum.lookup_listed, hlookup.2, Option.map_some, List.headD_cons, Datum.listed_record]
  | false =>
    rw [hu, if_neg Bool.false_ne_true] at hlookup
    refine inputRecords_list ?_ ?_
    · rw [Datum.lookup_listed, hlookup.1, Option.map_some, Datum.listed_list]
    · rw [Datum.lookup_listed, hlookup.2, Option.map_none]

/-- A plan that is read back from its record when this was written as text. -/
def IsReadAsText (p : Plan) : Prop :=
  ∃ d, p.toDatum = .ok d ∧ ∀ n, d.depth ≤ n → decode n d.listed = .ok p.printed

theorem listToDatum_eq_ok (h : listToDatum is = .ok ds) :
    List.Forall₂ (fun p d ↦ p.toDatum = .ok d) is ds := by
  induction is generalizing ds with
  | nil =>
    obtain rfl := Except.ok.inj h
    exact .nil
  | cons p ps ih =>
    obtain ⟨d, hd, h⟩ := Outcome.bind_eq_ok.mp h
    obtain ⟨es, hes, h⟩ := Outcome.bind_eq_ok.mp h
    obtain rfl := Except.ok.inj h
    exact .cons hd (ih hes)

theorem mapM_decode_listed {n : Nat} (hds : List.Forall₂ (fun p d ↦ p.toDatum = .ok d) is ds)
    (h : ∀ p ∈ is, p.IsReadAsText) (hn : Datum.depthList ds ≤ n) :
    (ds.map Datum.listed).mapM (decode n) = .ok (is.map printed) := by
  induction hds with
  | nil => rfl
  | @cons p d ps ds hd _ ih =>
    obtain ⟨e, he, hread⟩ := h p (by simp)
    obtain rfl := Except.ok.inj (hd.symm.trans he)
    simp only [Datum.depthList] at hn
    rw [List.map_cons, List.mapM_cons, hread n (by omega), Outcome.ok_bind,
      ih (fun q hq ↦ h q (by simp [hq])) (by omega)]
    rfl

theorem isReadAsText_of_isStorable (hb : p.Built) (hs : p.isStorable = true) : p.IsReadAsText := by
  induction p with
  | node m op is ih =>
    obtain ⟨⟨ht, ha⟩, hbs⟩ := built_node.mp hb
    obtain ⟨hop, his⟩ := isStorable_node.mp hs
    obtain ⟨ds, hd, hds, hlen, hrec, -⟩ :=
      toDatum_fields hb hop fun q hq ↦ isRead_of_isStorable (hbs q hq) (his q hq)
    have hfiles := op.files_fields hlen hrec
    refine ⟨.record (op.fields ds), hd, fun n hn ↦ ?_⟩
    have hdepth := hfiles.depth
    simp only [Datum.depth] at hn
    obtain ⟨n, rfl⟩ : ∃ k, n = k + 1 := ⟨n - 1, by omega⟩
    have hread := mapM_decode_listed (n := n) (listToDatum_eq_ok hds)
      (fun q hq ↦ ih q hq (hbs q hq) (his q hq)) (by omega)
    rw [Datum.listed_record, printed_node, decode_of_restored
      (Operator.isTyped_listed (Operator.isTyped_filed ht hop))
      (Operator.isStorable_listed op.isStorable_filed) ?_ (inputRecords_listed hlen hrec) ?_
      hread ?_, Operator.filed_listed]
    · exact ⟨accepts_printed ha hop, rfl⟩
    · rw [Datum.lookup_listed, hfiles.tag, Operator.kind_listed, Operator.kind_filed]
      rfl
    · have hfilter := hfiles.params
      rw [Operator.kind_listed, Operator.kind_filed, List.filter_map]
      exact (congrArg _ (congrArg _ hfilter)).trans (Operator.restore_listed ht)
    · exact List.forall_mem_map.mpr fun q hq ↦ isTyped_of_built ((hbs q hq).printed (his q hq))

theorem ofJson_toJson {l : Json.Layout} (hb : p.Built) (hs : p.isStorable = true)
    (hl : ∀ d, p.serialize = .ok d → Json.read (Json.write l d) = some d.listed) :
    ∃ s, p.toJson l = .ok s ∧ ofJson (.text s) = .ok p.printed := by
  obtain ⟨d, hd, hread⟩ := isReadAsText_of_isStorable hb hs
  have hdoc : p.serialize = .ok (.record [("version", .text formatVersion), ("root", d)]) := by
    simp only [serialize, hd, Outcome.ok_bind, Outcome.pure_eq]
  have hroot : ofDatum d.listed = .ok p.printed := hread _ (Datum.depth_listed d).ge
  have htext : p.toJson l = .ok (Json.write l (.record [("version", .text formatVersion),
      ("root", d)])) := by
    simp only [toJson, hdoc, Outcome.ok_bind, Outcome.pure_eq]
  refine ⟨_, htext, ?_⟩
  simp only [ofJson, hl _ hdoc]
  exact deserialize_document hroot

end Plan

end Gridplan
