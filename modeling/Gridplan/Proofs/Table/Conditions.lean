import Gridplan.Proofs.Frame.Alike
import Gridplan.Proofs.Table.Recording

namespace Gridplan

inductive Condition where
  | compare (column : String) (c : Datum.Comparison) (d : Datum)
  | connect (op : Column.Connective) (a b : Condition)
  | complement (a : Condition)

namespace Condition

def mask (t : Table) : Condition → Outcome Mask
  | compare n c d => Mask.compare t (.text n) none c d
  | connect op a b => do
    let m ← a.mask t
    let k ← b.mask t
    Mask.connect op m k
  | complement a => do (← a.mask t).complement

def bare : Condition → Condition
  | compare n c d => compare n c d
  | connect op a b => connect op a.bare b.bare
  | complement a => a.bare

end Condition

open Outcome (Ensures bind_eq_ok ok_bind)

theorem Datum.Comparison.ofSymbol?_symbol (c : Comparison) : ofSymbol? c.symbol = some c := by
  cases c <;> rfl

namespace Column

theorem compareBy_bools (c : Datum.Comparison) (a b : Column) :
    Ensures (compareBy c a b) fun r ↦ ∃ bs, r = .bools bs := by
  unfold compareBy
  split
  · exact .skip fun bs ↦ .ok ⟨bs, rfl⟩
  · exact .skip fun bs ↦ .ok ⟨bs, rfl⟩
  · exact .ok ⟨_, rfl⟩

theorem compareWith_bools (c : Datum.Comparison) (a : Column) (d : Datum) :
    Ensures (compareWith c a d) fun r ↦ ∃ bs, r = .bools bs := by
  unfold compareWith
  split
  · exact .ok ⟨_, rfl⟩
  split
  · exact .skip fun bs ↦ .ok ⟨bs, rfl⟩
  split
  · exact .ok ⟨_, rfl⟩
  · exact .ok ⟨_, rfl⟩
  · exact .ok ⟨_, rfl⟩
  · exact .error _

theorem connect_bools (op : Connective) (xs ys : List Bool) :
    ∃ zs, connect op (.bools xs) (.bools ys) = .ok (.bools zs) := ⟨_, rfl⟩

end Column

theorem Quantity.compareBy_bools (c : Datum.Comparison) (a : Column) (d : Datum) :
    Ensures (compareBy c (.column a) (.single d)) fun q ↦ ∃ bs, q = .column (.bools bs) := by
  cases d with
  | list xs =>
    refine .skip fun b ↦ .bind (Column.compareBy_bools c a b) fun r hr ↦ ?_
    obtain ⟨bs, rfl⟩ := hr
    exact .ok ⟨bs, rfl⟩
  | _ =>
    refine .bind (Column.compareWith_bools c a _) fun r hr ↦ ?_
    obtain ⟨bs, rfl⟩ := hr
    exact .ok ⟨bs, rfl⟩

namespace Expr

theorem evaluate_comparison {g : Frame} {n : String} {cells : Column}
    (h : g.column (.text n) = .ok cells) (c : Datum.Comparison) (d : Datum) :
    (binary c.symbol (.column n) (.literal d)).evaluate g =
      Quantity.compareBy c (.column cells) (.single d) := by
  simp [evaluate, h, Quantity.binary, Datum.Comparison.ofSymbol?_symbol]

theorem evaluate_connective {g : Frame} {e e' : Expr} {a b : Column}
    (ha : e.evaluate g = .ok (.column a)) (hb : e'.evaluate g = .ok (.column b))
    (op : Column.Connective) : (binary (Mask.symbol op) e e').evaluate g =
      (Column.connect op a b).map .column := by
  cases op <;> simp only [evaluate, ha, hb, ok_bind] <;> rfl

end Expr

namespace Mask

theorem compare_eq_ok {t : Table} (ht : t.plan.isSome = true) {n : String} {c : Datum.Comparison}
    {d : Datum} {m : Mask} (h : compare t (.text n) none c d = .ok m) :
    ∃ cells bs, t.frame.column (.text n) = .ok cells ∧
      Quantity.compareBy c (.column cells) (.single d) = .ok (.column (.bools bs)) ∧
      m = .series t.frame.index (.bools bs) (.text n)
        (some (.binary c.symbol (.column n) (.literal d))) := by
  obtain ⟨cells, hcells, h⟩ := bind_eq_ok.mp h
  obtain ⟨shifted, hshifted, h⟩ := bind_eq_ok.mp h
  obtain rfl := Except.ok.inj hshifted
  obtain ⟨q, hq, h⟩ := bind_eq_ok.mp h
  obtain ⟨bs, rfl⟩ := Quantity.compareBy_bools c cells d q hq
  simp only [ht, if_true] at h
  exact ⟨cells, bs, hcells, hq, (Except.ok.inj h).symm⟩

theorem connect_series {op : Column.Connective} {i : List Int} {xs ys zs : List Bool} {n k : Label}
    {o o' : String} {l l' r r' : Expr} (h : Column.connect op (.bools xs) (.bools ys) = .ok (.bools zs)) :
    connect op (.series i (.bools xs) n (some (.binary o l r)))
        (.series i (.bools ys) k (some (.binary o' l' r'))) =
      .ok (.series i (.bools zs) (if n.same k then n else .null)
        (some (.binary (symbol op) (.binary o l r) (.binary o' l' r')))) := by
  have hrows : connectRows op i i (.bools xs) (.bools ys) = .ok (i, .bools zs) := by
    rw [connectRows, if_pos rfl, h]
    rfl
  rw [connect, hrows]
  rfl

theorem choose_bools (f : Frame) (bs : List Bool) (name : Label) (e : Option Expr) :
    choose f (.series f.index (.bools bs) name e) = .ok (f.keep bs) := by
  rw [choose, if_pos rfl]
  rfl

end Mask

namespace Condition

variable {t : Table}

theorem mask_eq_ok (ht : t.plan.isSome = true) {c : Condition} {m : Mask} (h : c.mask t = .ok m) :
    ∃ bs kept name op l r,
      m = .series t.frame.index (.bools bs) name (some (.binary op l r)) ∧
      c.bare.mask t = .ok (.series t.frame.index (.bools kept) name (some (.binary op l r))) ∧
      ∀ g : Frame, g.Alike t.frame →
        (Expr.binary op l r).evaluate g = .ok (.column (.bools kept)) := by
  induction c generalizing m with
  | compare n c d =>
    obtain ⟨cells, bs, hcells, hq, rfl⟩ := Mask.compare_eq_ok ht h
    refine ⟨bs, bs, .text n, c.symbol, .column n, .literal d, rfl, h, ?_⟩
    intro g hg
    rw [Expr.evaluate_comparison (by rw [hg.column, hcells]), hq]
  | connect op a b iha ihb =>
    obtain ⟨ma, hma, h⟩ := bind_eq_ok.mp h
    obtain ⟨mb, hmb, h⟩ := bind_eq_ok.mp h
    obtain ⟨xs, us, n, o, l, r, rfl, hbarea, heva⟩ := iha hma
    obtain ⟨ys, vs, k, o', l', r', rfl, hbareb, hevb⟩ := ihb hmb
    obtain ⟨bs, hbs⟩ := Column.connect_bools op xs ys
    obtain ⟨kept, hkept⟩ := Column.connect_bools op us vs
    rw [Mask.connect_series hbs] at h
    refine ⟨bs, kept, _, _, _, _, (Except.ok.inj h).symm, ?_, ?_⟩
    · rw [bare, mask, hbarea, hbareb, ok_bind, ok_bind, Mask.connect_series hkept]
    · intro g hg
      rw [Expr.evaluate_connective (heva g hg) (hevb g hg), hkept]
      rfl
  | complement a ih =>
    obtain ⟨ma, hma, h⟩ := bind_eq_ok.mp h
    obtain ⟨bs, kept, name, op, l, r, rfl, hbare, heval⟩ := ih hma
    exact ⟨_, kept, name, op, l, r, (Except.ok.inj h).symm, hbare, heval⟩

/-- What is recorded of a condition stands for the condition without its complements. So it stands
for the mask exactly when leaving them out leaves the mask as it is, which is so for every condition
without complements. -/
theorem recorded_means_mask {p : Plan} (hp : t.plan = some p) {c : Condition} {m : Mask}
    (h : c.mask t = .ok m) :
    ∃ bs kept name, m = .series t.frame.index (.bools bs) name (some m.recorded) ∧
      c.bare.mask t = .ok (.series t.frame.index (.bools kept) name (some m.recorded)) ∧
      m.recorded.evaluate t.frame = .ok (.column (.bools kept)) ∧
      (m.recorded.evaluate t.frame = .ok (.column (.bools bs)) ↔ c.bare.mask t = c.mask t) ∧
      (c.bare = c → m.recorded.evaluate t.frame = .ok (.column (.bools bs))) ∧
      ∀ n n' t', t.filter m n = .ok (t', n') → t'.frame = t.frame.keep bs ∧
        t'.plan = some (.node (some n) (.filter m.recorded) [p]) := by
  have ht : t.plan.isSome = true := by rw [hp]; rfl
  obtain ⟨bs, kept, name, op, l, r, rfl, hbare, heval⟩ := mask_eq_ok ht h
  have hmeans := heval t.frame (.refl _)
  have hiff : (Expr.binary op l r).evaluate t.frame = .ok (.column (.bools bs)) ↔
      c.bare.mask t = c.mask t := by
    rw [hmeans, hbare, h]
    simp
  refine ⟨bs, kept, name, rfl, hbare, hmeans, hiff, ?_, ?_⟩
  · intro hc
    exact hiff.mpr (congrArg (mask t) hc)
  · intro n n' t' hfilter
    obtain ⟨f, hchoose, hfollow⟩ := Recording.lift_bind_eq_ok.mp hfilter
    obtain ⟨rfl, -⟩ := Table.follow_tracked rfl hp hfollow
    rw [Mask.choose_bools] at hchoose
    obtain rfl := Except.ok.inj hchoose
    exact ⟨rfl, rfl⟩

def twoRows : Table :=
  ⟨⟨[(.text "a", .ints [1, 2])], [0, 1]⟩, some (.node (some 0) (.source "t" (some ["a"]) none) [])⟩

def oneOrMore : Condition :=
  .connect .either (.compare "a" .gt (.int 1)) (.complement (.complement (.compare "a" .eq (.int 1))))

theorem recorded_means_mask_either :
    ∃ p m bs name, twoRows.plan = some p ∧ oneOrMore.mask twoRows = .ok m ∧
      m = .series [0, 1] (.bools bs) name (some m.recorded) ∧
      (m.recorded.evaluate twoRows.frame = .ok (.column (.bools bs)) ↔
        oneOrMore.bare.mask twoRows = oneOrMore.mask twoRows) := by
  have hm : ∃ m, oneOrMore.mask twoRows = .ok m := ⟨_, rfl⟩
  obtain ⟨m, hm⟩ := hm
  obtain ⟨bs, -, name, hseries, -, -, hiff, -⟩ := recorded_means_mask (t := twoRows) rfl hm
  exact ⟨_, m, bs, name, rfl, hm, hseries, hiff⟩

/-- A complement is not recorded: the condition that is recorded holds of the other rows. -/
theorem complement_not_recorded :
    ∃ m, (complement (.compare "a" .gt (.int 1))).mask twoRows = .ok m ∧
      m.cells = [.bool true, .bool false] ∧
      m.recorded.evaluate twoRows.frame = .ok (.column (.bools [false, true])) :=
  ⟨_, rfl, rfl, rfl⟩

end Condition

end Gridplan
