import Gridplan.Expr.Build
import Gridplan.Expr.Codec
import Gridplan.Expr.Evaluate
import Gridplan.Proofs.Outcome

namespace Gridplan

theorem Datum.depth_pos (d : Datum) : 0 < d.depth := by cases d <;> simp [Datum.depth]

theorem Datum.depth_le_depthFields {f : String × Datum} {fs : List (String × Datum)} (h : f ∈ fs) :
    f.2.depth ≤ depthFields fs := by
  induction fs with
  | nil => cases h
  | cons g fs ih =>
    obtain ⟨k, v⟩ := g
    simp only [depthFields]
    rcases List.mem_cons.mp h with rfl | h
    · exact le_max_left _ _
    · exact (ih h).trans (le_max_right _ _)

namespace Expr

mutual

/-- Whether no plain value stands anywhere in the expression. -/
def isProper : Expr → Bool
  | .binary _ l r => isProper l && isProper r
  | .unary _ e => isProper e
  | .call _ args => isProperList args
  | .raw _ => false
  | _ => true

def isProperList : List Expr → Bool
  | [] => true
  | e :: es => isProper e && isProperList es

end

section Codec

attribute [local simp] decode tag need needText toDatum Datum.field? Datum.items List.lookup_cons

mutual

theorem decode_toDatum : ∀ e : Expr, e.isProper = true →
    ∃ d, e.toDatum = .ok d ∧ ∀ n, d.depth ≤ n → decode n d = .ok e
  | .verbatim _, _ | .column _, _ | .literal _, _ => by
    refine ⟨_, rfl, fun n hn ↦ ?_⟩
    obtain ⟨n, rfl⟩ := Nat.exists_eq_add_one.mpr ((Datum.depth_pos _).trans_le hn)
    simp
  | .binary op l r, h => by
    simp only [isProper, Bool.and_eq_true] at h
    obtain ⟨a, ha, hl⟩ := decode_toDatum l h.1
    obtain ⟨b, hb, hr⟩ := decode_toDatum r h.2
    refine ⟨.record [("type", .text "binary_op"), ("op", .text op), ("left", a), ("right", b)],
      by simp [ha, hb], fun n hn ↦ ?_⟩
    simp only [Datum.depth, Datum.depthFields] at hn
    obtain ⟨n, rfl⟩ : ∃ k, n = k + 1 := ⟨n - 1, by omega⟩
    simp [hl n (by omega), hr n (by omega)]
  | .unary op e, h => by
    obtain ⟨a, ha, he⟩ := decode_toDatum e h
    refine ⟨.record [("type", .text "unary_op"), ("op", .text op), ("operand", a)],
      by simp [ha], fun n hn ↦ ?_⟩
    simp only [Datum.depth, Datum.depthFields] at hn
    obtain ⟨n, rfl⟩ : ∃ k, n = k + 1 := ⟨n - 1, by omega⟩
    simp [he n (by omega)]
  | .call f args, h => by
    obtain ⟨ds, hds, hargs⟩ := decode_toDatumList args h
    refine ⟨.record [("type", .text "function_call"), ("func", .text f), ("args", .list ds)],
      by simp [hds], fun n hn ↦ ?_⟩
    simp only [Datum.depth, Datum.depthFields] at hn
    obtain ⟨n, rfl⟩ : ∃ k, n = k + 1 := ⟨n - 1, by omega⟩
    simp [hargs n (by omega)]
  | .raw _, h => by simp [isProper] at h

theorem decode_toDatumList : ∀ es : List Expr, isProperList es = true →
    ∃ ds, toDatumList es = .ok ds ∧ ∀ n, Datum.depthList ds ≤ n → ds.mapM (decode n) = .ok es
  | [], _ => ⟨[], rfl, fun _ _ ↦ rfl⟩
  | e :: es, h => by
    simp only [isProperList, Bool.and_eq_true] at h
    obtain ⟨d, hd, he⟩ := decode_toDatum e h.1
    obtain ⟨ds, hds, hes⟩ := decode_toDatumList es h.2
    refine ⟨d :: ds, by simp [toDatumList, hd, hds], fun n hn ↦ ?_⟩
    simp only [Datum.depthList] at hn
    simp only [List.mapM_cons, he n (by omega), hes n (by omega), Outcome.ok_bind, Outcome.pure_eq]

end

mutual

theorem toDatum_improper : ∀ e : Expr, e.isProper = false → e.toDatum = .error .member
  | .verbatim _, h | .column _, h | .literal _, h => by simp [isProper] at h
  | .binary op l r, h => by
    cases hl : l.isProper with
    | false => simp only [toDatum, toDatum_improper l hl, Outcome.error_bind]
    | true =>
      obtain ⟨a, ha, -⟩ := decode_toDatum l hl
      have hr : r.isProper = false := by simpa [isProper, hl] using h
      simp only [toDatum, ha, toDatum_improper r hr, Outcome.ok_bind, Outcome.error_bind]
  | .unary op e, h => by
    have he : e.isProper = false := h
    simp only [toDatum, toDatum_improper e he, Outcome.error_bind]
  | .call f args, h => by
    have hargs : isProperList args = false := h
    simp only [toDatum, toDatumList_improper args hargs, Outcome.error_bind]
  | .raw _, _ => rfl

theorem toDatumList_improper : ∀ es : List Expr, isProperList es = false →
    toDatumList es = .error .member
  | [], h => by simp [isProperList] at h
  | e :: es, h => by
    cases he : e.isProper with
    | false => simp only [toDatumList, toDatum_improper e he, Outcome.error_bind]
    | true =>
      obtain ⟨a, ha, -⟩ := decode_toDatum e he
      have hes : isProperList es = false := by simpa [isProperList, he] using h
      simp only [toDatumList, ha, toDatumList_improper es hes, Outcome.ok_bind, Outcome.error_bind]

end

end Codec

/-- Whether an expression can be stored: it is proper, or as a whole a plain value. -/
def isStorable : Expr → Bool
  | .raw _ => true
  | e => e.isProper

/-- The record of an expression, or the value in its place. -/
def record (e : Expr) : Datum :=
  match e.stored with
  | .ok d => d
  | .error _ => .null

/-- An expression as it is found after it has been stored: a record in its place. -/
def filed (e : Expr) : Expr := .raw e.record

theorem isStorable_of_isProper {e : Expr} (h : e.isProper = true) : e.isStorable = true := by
  cases e <;> simp_all [isStorable]

theorem stored_of_isStorable {e : Expr} (h : e.isStorable = true) : e.stored = .ok e.record := by
  cases e with
  | raw d => rfl
  | _ =>
    obtain ⟨d, hd, -⟩ := decode_toDatum _ h
    simp only [record, stored, hd]

theorem stored_of_not_isStorable {e : Expr} (h : e.isStorable = false) :
    e.stored = .error .member := by
  cases e with
  | raw d => simp [isStorable] at h
  | _ => exact toDatum_improper _ h

theorem record_of_isProper {e : Expr} (h : e.isProper = true) :
    ∃ f fs, e.record = .record (f :: fs) := by
  obtain ⟨d, hd, -⟩ := decode_toDatum e h
  have hr : e.record = d := by
    cases e with
    | raw => cases h
    | _ => simp [record, stored, hd]
  rw [hr]
  cases e with
  | raw => cases h
  | verbatim | column | literal =>
    simp only [toDatum, Except.ok.injEq] at hd
    exact ⟨_, _, hd.symm⟩
  | binary | unary | call =>
    simp only [toDatum, Outcome.bind_eq_ok, Outcome.pure_eq, Except.ok.injEq] at hd
    first
      | obtain ⟨a, -, b, -, hd⟩ := hd; exact ⟨_, _, hd.symm⟩
      | obtain ⟨a, -, hd⟩ := hd; exact ⟨_, _, hd.symm⟩

theorem record_ne_null {e : Expr} (h : e.isStorable = true) (hn : e ≠ .raw .null) :
    e.record ≠ .null := by
  cases e with
  | raw d => exact fun hd ↦ hn (congrArg _ hd)
  | _ =>
    obtain ⟨f, fs, hr⟩ := record_of_isProper h
    simp [hr]

theorem stored_eq (e : Expr) :
    e.stored = if e.isStorable then .ok e.record else .error .member := by
  cases h : e.isStorable with
  | true => simp [stored_of_isStorable h]
  | false => simp [stored_of_not_isStorable h]

@[simp] theorem filed_raw (d : Datum) : filed (.raw d) = .raw d := rfl

@[simp] theorem columns_filed (e : Expr) : e.filed.columns = [] := rfl

mutual

/-- The expression that is meant: records in place of expressions are read. -/
def read : Expr → Expr
  | .binary op l r => .binary op (read l) (read r)
  | .unary op e => .unary op (read e)
  | .call f args => .call f (readList args)
  | .raw d =>
    match ofDatum d with
    | .ok e => e
    | .error _ => .raw d
  | e => e

def readList : List Expr → List Expr
  | [] => []
  | e :: es => read e :: readList es

end

mutual

theorem read_of_isProper : ∀ e : Expr, e.isProper = true → e.read = e
  | .verbatim _, _ | .column _, _ | .literal _, _ => rfl
  | .binary op l r, h => by
    simp only [isProper, Bool.and_eq_true] at h
    simp only [read, read_of_isProper l h.1, read_of_isProper r h.2]
  | .unary op e, h => by
    have he : e.isProper = true := h
    simp only [read, read_of_isProper e he]
  | .call f args, h => by
    have hargs : isProperList args = true := h
    simp only [read, readList_of_isProperList args hargs]
  | .raw _, h => by simp [isProper] at h

theorem readList_of_isProperList : ∀ es : List Expr, isProperList es = true → readList es = es
  | [], _ => rfl
  | e :: es, h => by
    simp only [isProperList, Bool.and_eq_true] at h
    simp only [readList, read_of_isProper e h.1, readList_of_isProperList es h.2]

end

theorem read_filed {e : Expr} (h : e.isStorable = true) : e.filed.read = e.read := by
  cases e with
  | raw d => rfl
  | _ =>
    obtain ⟨d, hd, he⟩ := decode_toDatum _ h
    rw [read_of_isProper _ h]
    simp only [filed, record, stored, hd, read, ofDatum, he _ le_rfl]

/-- The expressions that are built from columns, literals, texts, calls and operators. One side of
an operator may be a plain value. -/
inductive Made : Expr → Prop
  | column (name : String) : Made (.column name)
  | literal (value : Datum) : Made (.literal value)
  | verbatim (text : String) : Made (.verbatim text)
  | call {f : String} {args : List Expr} (h : ∀ a ∈ args, Made a) : Made (.call f args)
  | operator {op : String} {a b e : Expr} (ha : Made a) (hb : Made b) (h : combine op a b = .ok e) :
    Made e
  | valueRight {op : String} {a e : Expr} {x : Datum} (ha : Made a)
    (h : combine op a (.raw x) = .ok e) : Made e
  | valueLeft {op : String} {b e : Expr} {x : Datum} (hb : Made b)
    (h : combine op (.raw x) b = .ok e) : Made e
  | negate {a e : Expr} (ha : Made a) (h : negate a = .ok e) : Made e
  | complement {a e : Expr} (ha : Made a) (h : complement a = .ok e) : Made e

theorem isProperList_iff {es : List Expr} :
    isProperList es = true ↔ ∀ e ∈ es, e.isProper = true := by
  induction es with
  | nil => simp [isProperList]
  | cons e es ih => rw [isProperList, Bool.and_eq_true, ih, List.forall_mem_cons]

section Operators

variable {op : String} {a b e : Expr} {x : Datum}

theorem isProper_combine (ha : a.isProper = true) (hb : b.lift.isProper = true)
    (h : combine op a b = .ok e) : e.isProper = true := by
  have he : e = .binary op a b.lift := by
    cases a with
    | raw => cases ha
    | _ => exact (Except.ok.inj h).symm
  rw [he, isProper, ha, hb]
  rfl

/-- A value on the left becomes a literal, on the right if the operator is a comparison. -/
theorem isProper_combine_raw (hb : b.isProper = true) (h : combine op (.raw x) b = .ok e) :
    e.isProper = true := by
  have he : (∃ symbol, e = .binary symbol b (.literal x)) ∨ e = .binary op (.literal x) b := by
    rw [combine] at h
    · split at h
      · exact .inl ⟨_, (Except.ok.inj h).symm⟩
      · split at h
        · cases h
        · exact .inr (Except.ok.inj h).symm
    · rintro y rfl
      cases hb
  rcases he with ⟨symbol, rfl⟩ | rfl
  · rw [isProper, hb]
    rfl
  · rw [isProper, hb]
    rfl

theorem isProper_lift (h : b.isProper = true) : b.lift.isProper = true := by
  cases b with
  | raw => rfl
  | _ => exact h

end Operators

theorem Made.isProper {e : Expr} (h : e.Made) : e.isProper = true := by
  induction h with
  | column | literal | verbatim => rfl
  | call _ ih => exact isProperList_iff.mpr ih
  | operator _ _ h iha ihb => exact isProper_combine iha (isProper_lift ihb) h
  | valueRight _ h ih => exact isProper_combine ih rfl h
  | valueLeft _ h ih => exact isProper_combine_raw ih h
  | @negate a e _ h ih | @complement a e _ h ih =>
    cases a with
    | raw => cases ih
    | _ =>
      obtain rfl := Except.ok.inj h
      exact ih

/-- An expression that has been built is read back from its record as it was: the same tree, with
the same text and the same value over every frame, and with the same record again. -/
theorem Made.read_back {e : Expr} (h : e.Made) :
    ∃ d e', e.toDatum = .ok d ∧ ofDatum d = .ok e' ∧ e' = e ∧ e'.display = e.display ∧
      (∀ f, e'.evaluate f = e.evaluate f) ∧ e'.toDatum = .ok d := by
  obtain ⟨d, hd, hdecode⟩ := decode_toDatum e h.isProper
  exact ⟨d, e, hd, hdecode _ le_rfl, rfl, rfl, fun _ ↦ rfl, hd⟩

/-- A comparison with nothing on its left, and a falsy value added to it. -/
theorem Made.read_back_promoted :
    ∃ less sum d, combine "<" (.raw .null) (.call "abs" []) = .ok less ∧
      combine "+" less (.raw (.bool false)) = .ok sum ∧ sum.toDatum = .ok d ∧
      ofDatum d = .ok
        (.binary "+" (.binary ">" (.call "abs" []) (.literal .null)) (.literal (.bool false))) := by
  have hcall : Made (.call "abs" []) := .call fun _ h ↦ absurd h List.not_mem_nil
  have hless : combine "<" (.raw .null) (.call "abs" []) =
      .ok (.binary ">" (.call "abs" []) (.literal .null)) := rfl
  have hsum : combine "+" (.binary ">" (.call "abs" []) (.literal .null)) (.raw (.bool false)) =
      .ok (.binary "+" (.binary ">" (.call "abs" []) (.literal .null)) (.literal (.bool false))) :=
    rfl
  obtain ⟨d, e, hd, hdecode, rfl, -⟩ := Made.read_back (.valueRight (.valueLeft hcall hless) hsum)
  exact ⟨_, _, d, hless, hsum, hd, hdecode⟩

end Expr

end Gridplan
