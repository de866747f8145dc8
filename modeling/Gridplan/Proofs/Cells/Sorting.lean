import Gridplan.Proofs.Cells.Tables
import Gridplan.Proofs.Relation.Order

namespace Gridplan.Cells

open Outcome (Ensures Succeeds ok_bind)

namespace SortKey

variable {a b : SortKey}

def order (a b : SortKey) : Ordering := if a.lt b then .lt else if b.lt a then .gt else .eq

def isProper : SortKey → Bool
  | .number x => !x.isNaN
  | .text _ => true

def place : SortKey → (Int ×ₗ Int) ×ₗ String
  | .number x => (Datum.float x).place
  | .text s => (Datum.text s).place

theorem lt_iff (ha : a.isProper = true) (hb : b.isProper = true) :
    a.lt b = true ↔ a.place < b.place := by
  cases a with
  | number x =>
    cases b with
    | number y =>
      have hx : x.isNaN = false := by simpa [isProper] using ha
      have hy : y.isNaN = false := by simpa [isProper] using hb
      have hlt : x < y ↔ Decimal.placeOf x.toModel.unpack < Decimal.placeOf y.toModel.unpack := by
        rw [Decimal.lt_iff, Decimal.compare_unpack hx hy, Option.some.injEq]
        exact compare_lt_iff_lt
      simp only [lt, decide_eq_true_eq, hlt, place, Datum.place, Prod.Lex.lt_iff]
      simp [Datum.number?, Number.place]
    | text t =>
      refine iff_of_true rfl (Prod.Lex.lt_iff.mpr (.inl ?_))
      exact (Number.float x).place_lt
  | text s =>
    cases b with
    | number y =>
      refine iff_of_false Bool.false_ne_true (Prod.Lex.lt_iff.not.mpr ?_)
      rintro (h | ⟨h, -⟩)
      · exact h.not_gt (Number.float y).place_lt
      · exact h.not_gt (Number.float y).place_lt
    | text t => simp [lt, place, Datum.place, Prod.Lex.lt_iff]

theorem lt_eq_false_iff (ha : a.isProper = true) (hb : b.isProper = true) :
    a.lt b = false ↔ b.place ≤ a.place := by
  rw [← Bool.not_eq_true, lt_iff ha hb, not_lt]

theorem order_eq (ha : a.isProper = true) (hb : b.isProper = true) :
    a.order b = compare a.place b.place := by
  unfold order
  simp only [lt_iff ha hb, lt_iff hb ha]
  rcases lt_trichotomy a.place b.place with h | h | h
  · rw [if_pos h, compare_lt_iff_lt.mpr h]
  · rw [if_neg h.not_lt, if_neg h.not_gt, compare_eq_iff_eq.mpr h]
  · rw [if_neg h.not_gt, if_pos h, compare_gt_iff_gt.mpr h]

def ranking (ascending : Bool) : Ranking SortKey where
  le a b := if ascending then decide (a.place ≤ b.place) else decide (b.place ≤ a.place)
  trans a b c hab hbc := by
    cases ascending <;> simp only [if_true, Bool.false_eq_true, if_false, decide_eq_true_eq] at *
    · exact hbc.trans hab
    · exact hab.trans hbc
  total a b := by
    cases ascending <;> simpa using le_total _ _

def directed (ascending : Bool) (o : Ordering) : Ordering := if ascending then o else o.swap

theorem ranking_le (ha : a.isProper = true) (hb : b.isProper = true) (ascending : Bool) :
    (ranking ascending).le a b = (directed ascending (a.order b)).isLE ∧
      (ranking ascending).le b a = (directed ascending (a.order b)).isGE := by
  simp only [ranking, order_eq ha hb]
  rcases lt_trichotomy a.place b.place with h | h | h
  · rw [compare_lt_iff_lt.mpr h]
    cases ascending <;> simp [directed, h.le, h.not_ge]
  · rw [compare_eq_iff_eq.mpr h]
    cases ascending <;> simp [directed, h]
  · rw [compare_gt_iff_gt.mpr h]
    cases ascending <;> simp [directed, h.le, h.not_ge]

end SortKey

variable {d : Datum} {rs : List (List Datum)} {r s : List Datum} {k : Nat × Bool}
  {ks : List (Nat × Bool)}

def IsDefinite (d : Datum) : Prop := ∀ x, d.asFloat? = .ok (some x) → x.isNaN = false

theorem isDefinite_iff : IsDefinite d ↔ (d.asFloat?.toOption.bind id).all (!·.isNaN) = true := by
  unfold IsDefinite
  cases d.asFloat? with
  | error e => simp [Except.toOption]
  | ok o => cases o <;> simp [Except.toOption]

instance : DecidablePred IsDefinite := fun _ ↦ decidable_of_iff _ isDefinite_iff.symm

theorem isSortable_iff : IsSortable d ↔ d.asFloat?.isOk = true := by
  unfold IsSortable
  cases d.asFloat? with
  | error e => exact iff_of_false (Outcome.not_succeeds_error e) Bool.false_ne_true
  | ok o => exact iff_of_true ⟨o, rfl⟩ rfl

instance : DecidablePred IsSortable := fun _ ↦ decidable_of_iff _ isSortable_iff.symm

def keyOf (d : Datum) : SortKey := (SortKey.ofCell d).toOption.getD (.text "")

/-- The cell of a row in a column. A row that is too short has an empty text there. -/
def cellIn (j : Nat) (row : List Datum) : Datum := row.getD j (.text "")

def columnOrder (k : Nat × Bool) (r s : List Datum) : Ordering :=
  SortKey.directed k.2 ((keyOf (cellIn k.1 r)).order (keyOf (cellIn k.1 s)))

/-- How two rows compare: the first of the columns in which they differ decides. -/
def rowOrder : List (Nat × Bool) → List Datum → List Datum → Ordering
  | [], _, _ => .eq
  | k :: ks, r, s => (columnOrder k r s).then (rowOrder ks r s)

theorem ofCell_eq (h : IsSortable d) : SortKey.ofCell d = .ok (keyOf d) := by
  obtain ⟨key, hkey⟩ := succeeds_ofCell.mpr h
  rw [keyOf, hkey]
  rfl

theorem isProper_keyOf (h : IsDefinite d) : (keyOf d).isProper = true := by
  unfold keyOf SortKey.ofCell
  cases hd : d.asFloat? with
  | error e => rfl
  | ok o =>
    cases o with
    | none => rfl
    | some x =>
      change (!x.isNaN) = true
      rw [h x hd]
      rfl

def byColumn (k : Nat × Bool) : Ranking (List Datum) :=
  (SortKey.ranking k.2).comap fun row ↦ keyOf (cellIn k.1 row)

def byColumns : List (Nat × Bool) → Ranking (List Datum)
  | [] => .indifferent
  | k :: ks => (byColumn k).thenBy (byColumns ks)

theorem byColumns_le (hr : ∀ k ∈ ks, IsDefinite (cellIn k.1 r))
    (hs : ∀ k ∈ ks, IsDefinite (cellIn k.1 s)) :
    (byColumns ks).le r s = (rowOrder ks r s).isLE ∧
      (byColumns ks).le s r = (rowOrder ks r s).isGE := by
  induction ks with
  | nil => exact ⟨rfl, rfl⟩
  | cons k ks ih =>
    obtain ⟨hr, hrs⟩ := List.forall_mem_cons.mp hr
    obtain ⟨hs, hss⟩ := List.forall_mem_cons.mp hs
    obtain ⟨hle, hge⟩ := SortKey.ranking_le (isProper_keyOf hr) (isProper_keyOf hs) k.2
    obtain ⟨hle', hge'⟩ := ih hrs hss
    simp only [byColumns, Ranking.thenBy, byColumn, Ranking.comap, hle, hge, hle', hge', rowOrder,
      columnOrder]
    cases SortKey.directed k.2 ((keyOf (cellIn k.1 r)).order (keyOf (cellIn k.1 s))) <;> simp

theorem byColumns_ties (hr : ∀ k ∈ ks, IsDefinite (cellIn k.1 r))
    (hs : ∀ k ∈ ks, IsDefinite (cellIn k.1 s)) :
    (byColumns ks).ties r s = (rowOrder ks r s == .eq) := by
  obtain ⟨hle, hge⟩ := byColumns_le hr hs
  rw [Ranking.ties, hle, hge]
  cases rowOrder ks r s <;> rfl

theorem sortOnce_table (hs : ∀ r ∈ rs, IsSortable (cellIn k.1 r))
    (hd : ∀ r ∈ rs, IsDefinite (cellIn k.1 r)) :
    sortOnce (.int (k.1 + 1)) k.2 (rs.map .list) = .ok (((byColumn k).sort rs).map .list) := by
  have hkeyed : ∀ r ∈ rs, keyedBy k.1 (.list r) = .ok (keyOf (cellIn k.1 r), .list r) := by
    intro r hr
    rw [keyedBy, cellAt_list, ok_bind, ← cellIn, ofCell_eq (hs r hr)]
    rfl
  rw [sortOnce_int, List.mapM_map, Function.comp_def, Outcome.mapM_ok hkeyed, ok_bind,
    arrange]
  have hle : ∀ r ∈ rs, ∀ s ∈ rs, (byColumn k).le r s =
      if k.2 then !(keyOf (cellIn k.1 s)).lt (keyOf (cellIn k.1 r))
      else !(keyOf (cellIn k.1 r)).lt (keyOf (cellIn k.1 s)) := by
    intro r hr s hs
    have hrs := SortKey.lt_eq_false_iff (isProper_keyOf (hd r hr)) (isProper_keyOf (hd s hs))
    have hsr := SortKey.lt_eq_false_iff (isProper_keyOf (hd s hs)) (isProper_keyOf (hd r hr))
    rw [Bool.eq_iff_iff]
    cases hk : k.2 with
    | false => simp [byColumn, Ranking.comap, SortKey.ranking, hk, hrs]
    | true => simp [byColumn, Ranking.comap, SortKey.ranking, hk, hsr]
  rw [← List.map_mergeSort hle, List.map_map]
  rfl

theorem sortRows_cons (key : Datum × Bool) (keys : List (Datum × Bool)) (rows : List Datum) :
    sortRows (key :: keys) rows = sortRows keys rows >>= sortOnce key.1 key.2 := by
  rw [sortRows, List.reverse_cons, List.foldlM_append, sortRows]
  refine bind_congr fun out ↦ ?_
  rw [List.foldlM_cons]
  exact bind_pure _

theorem sortRows_table (hs : ∀ k ∈ ks, ∀ r ∈ rs, IsSortable (cellIn k.1 r))
    (hd : ∀ k ∈ ks, ∀ r ∈ rs, IsDefinite (cellIn k.1 r)) :
    sortRows (ks.map sortKey) (rs.map .list) = .ok (((byColumns ks).sort rs).map .list) := by
  induction ks with
  | nil =>
    rw [byColumns, Ranking.sort_eq_self (List.pairwise_of_forall fun _ _ ↦ rfl)]
    rfl
  | cons k ks ih =>
    obtain ⟨hsk, hs⟩ := List.forall_mem_cons.mp hs
    obtain ⟨hdk, hd⟩ := List.forall_mem_cons.mp hd
    have hmem : ∀ r, r ∈ (byColumns ks).sort rs → r ∈ rs :=
      fun r hr ↦ ((byColumns ks).sort_perm rs).mem_iff.mp hr
    rw [List.map_cons, sortRows_cons, ih hs hd, ok_bind, byColumns, ← Ranking.sort_sort]
    exact sortOnce_table (fun r hr ↦ hsk r (hmem r hr)) fun r hr ↦ hdk r (hmem r hr)

theorem sort_eq (hrs : rs ≠ []) (hs : ∀ k ∈ ks, ∀ r ∈ rs, IsSortable (cellIn k.1 r))
    (hd : ∀ k ∈ ks, ∀ r ∈ rs, IsDefinite (cellIn k.1 r)) :
    sort (table rs) (sortArguments ks) = .ok (table ((byColumns ks).sort rs)) := by
  rw [sort_table_eq ks hrs, sortRows_table hs hd]
  rfl

variable {args : List (Datum × Datum)}

def keyArguments (args : List (Datum × Datum)) : List Datum := args.flatMap fun a ↦ [a.1, a.2]

/-- Whether a key is the number of a column counted from one, and what comes with it the
direction. -/
def Names (a : Datum × Datum) (k : Nat × Bool) : Prop :=
  a.1.asInt = .ok (k.1 + 1) ∧ a.2.truthy = k.2

theorem keyPairs_keyArguments (args : List (Datum × Datum)) :
    keyPairs (keyArguments args) = args.map fun a ↦ (a.1, a.2.truthy) := by
  induction args with
  | nil => rfl
  | cons a args ih => exact congrArg _ ih

theorem sortOnce_of_asInt {key : Datum} {n : Int} (h : key.asInt = .ok n) (ascending : Bool)
    (rows : List Datum) : sortOnce key ascending rows = sortOnce (.int n) ascending rows := by
  cases key with
  | list => cases h
  | _ =>
    simp only [sortOnce, h]
    rfl

theorem sort_keyArguments (h : List.Forall₂ Names args ks) (d : Datum) :
    sort d (keyArguments args) = sort d (sortArguments ks) := by
  have hrows : ∀ rows, sortRows (args.map fun a ↦ (a.1, a.2.truthy)) rows =
      sortRows (ks.map sortKey) rows := by
    intro rows
    induction h with
    | nil => rfl
    | cons hname _ ih =>
      rw [List.map_cons, List.map_cons, sortRows_cons, sortRows_cons, ih]
      refine bind_congr fun out ↦ ?_
      rw [hname.2, sortOnce_of_asInt hname.1]
      rfl
  simp only [sort, keyPairs_keyArguments, keyPairs_sortArguments, hrows]

/-- A table with rows whose cells in some columns do not read as not-a-number is sorted by these
columns unless a cell in them is too large an integer. The result has the same rows. They are
ordered by the columns one after another, each in its own direction, and rows that are equal in all
of them are in the order in which they were. -/
theorem sort_lexicographic (hrs : rs ≠ []) (hargs : List.Forall₂ Names args ks)
    (hd : ∀ k ∈ ks, ∀ r ∈ rs, IsDefinite (cellIn k.1 r)) :
    (Succeeds (sort (table rs) (keyArguments args)) ↔
      ∀ k ∈ ks, ∀ r ∈ rs, IsSortable (cellIn k.1 r)) ∧
    Ensures (sort (table rs) (keyArguments args)) fun d ↦ ∃ ss, d = table ss ∧ ss.Perm rs ∧
      ss.Pairwise (fun r s ↦ rowOrder ks r s ≠ .gt) ∧
      ∀ r ∈ rs, ss.filter (rowOrder ks r · == .eq) = rs.filter (rowOrder ks r · == .eq) := by
  rw [sort_keyArguments hargs]
  have hiff := (sort_table ks hrs).2
  refine ⟨hiff, fun d hsorted ↦ ?_⟩
  have hs := hiff.mp ⟨d, hsorted⟩
  rw [sort_eq hrs hs hd] at hsorted
  have hperm := (byColumns ks).sort_perm rs
  have hdef : ∀ r ∈ rs, ∀ k ∈ ks, IsDefinite (cellIn k.1 r) := fun r hr k hk ↦ hd k hk r hr
  refine ⟨_, (Except.ok.inj hsorted).symm, hperm, ?_, fun r hr ↦ ?_⟩
  · refine ((byColumns ks).pairwise_sort rs).imp_of_mem fun {r s} hr hs hle ↦ ?_
    rw [(byColumns_le (hdef r (hperm.mem_iff.mp hr)) (hdef s (hperm.mem_iff.mp hs))).1] at hle
    rintro heq
    rw [heq] at hle
    cases hle
  · have hties : ∀ l : List (List Datum), (∀ s ∈ l, s ∈ rs) →
        l.filter (rowOrder ks r · == .eq) = l.filter ((byColumns ks).ties r) := fun l hl ↦
      List.filter_congr fun s hs ↦ (byColumns_ties (hdef r hr) (hdef s (hl s hs))).symm
    rw [hties _ fun s ↦ hperm.mem_iff.mp, hties rs fun s hs ↦ hs, Ranking.filter_sort_ties]

def ragged : List (List Datum) :=
  [[.text "b", .int 2], [.text "a"], [.text "b"], [.text "b", .text "2"]]

theorem sort_lexicographic_ragged :
    Succeeds (sort (table ragged) (keyArguments [(.int 1, .bool false), (.float 2, .int 1)])) ∧
    Ensures (sort (table ragged) (keyArguments [(.int 1, .bool false), (.float 2, .int 1)]))
      fun d ↦ ∃ ss, d = table ss ∧ ss.Perm ragged ∧
        ss.Pairwise (fun r s ↦ rowOrder [(0, false), (1, true)] r s ≠ .gt) ∧
        ∀ r ∈ ragged, ss.filter (rowOrder [(0, false), (1, true)] r · == .eq) =
          ragged.filter (rowOrder [(0, false), (1, true)] r · == .eq) := by
  have hargs : List.Forall₂ Names [(.int 1, .bool false), (.float 2, .int 1)]
      [(0, false), (1, true)] := .cons ⟨rfl, rfl⟩ (.cons ⟨rfl, rfl⟩ .nil)
  have hdefinite : ∀ k ∈ [(0, false), (1, true)], ∀ r ∈ ragged, IsDefinite (cellIn k.1 r) := by
    decide
  obtain ⟨hiff, hsorted⟩ := sort_lexicographic (List.cons_ne_nil _ _) hargs hdefinite
  exact ⟨hiff.mpr (by decide), hsorted⟩

def huge : Int := (2 ^ 128) ^ 8

theorem asFloat?_huge : (Datum.int huge).asFloat? = .error .overflow := by
  have hnone : Decimal.ofInt? huge = none := by decide +kernel
  simp [Datum.asFloat?, Datum.number?, Datum.toFloat, Number.toFloat?, hnone]

theorem isDefinite_huge : IsDefinite (.int huge) := by
  simp [IsDefinite, asFloat?_huge]

/-- A row cannot be sorted by an integer above all floats, which is not not-a-number. -/
theorem sort_huge_error : (∀ k ∈ [(0, true)], ∀ r ∈ [[.int huge, .text "a"]],
      IsDefinite (cellIn k.1 r)) ∧
    sort (table [[.int huge, .text "a"]]) (keyArguments [(.int 1, .bool true)]) =
      .error .overflow := by
  refine ⟨by simp [cellIn, isDefinite_huge], ?_⟩
  have hkeyed : keyedBy 0 (.list [.int huge, .text "a"]) = .error .overflow := by
    rw [keyedBy, cellAt_list 0]
    simp [SortKey.ofCell, asFloat?_huge]
  have honce : sortOnce (.int 1) true [.list [.int huge, .text "a"]] = .error .overflow := by
    rw [show (1 : Int) = (0 : Nat) + 1 from rfl, sortOnce_int]
    simp [hkeyed]
  have hargs : List.Forall₂ Names [(.int 1, .bool true)] [(0, true)] := .cons ⟨rfl, rfl⟩ .nil
  rw [sort_keyArguments hargs, sort_table_eq _ (List.cons_ne_nil _ _)]
  simp [sortRows, sortKey, honce]

end Gridplan.Cells
