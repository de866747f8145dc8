import Gridplan.Proofs.Formula.Calls
import Gridplan.Proofs.Layout.Keys
import Gridplan.Proofs.Layout.Order

namespace Gridplan.Layout

open Formula
open Outcome (bind_eq_ok ok_bind)

section Rows

variable {counter : Nat} {func output : String} {input : Option String}
  {partitionBy : List String} {orderBy : List SortKey} {frame : Datum} {b : Block} {P : Placement}

def windowCopies (counter : Nat) (b : Block) : List Step :=
  b.schema.zipIdx.map fun x ↦
    put (sheetName .window counter) 1 x.2 (spread (b.columnAt (b.schema.idxOf x.1)))

theorem column_of_mem {name : String} (h : name ∈ b.schema) :
    b.column name = .ok (b.columnAt (b.schema.idxOf name)) := by
  rw [Block.column, position_of_mem h]
  rfl

theorem edits_window
    (h : window counter func input output partitionBy orderBy frame b = .ok P) :
    ∃ rows term cells, b.depth = .whole rows ∧
      windowTerm ⟨b, sheetName .window counter, partitionBy, orderBy⟩ func input frame = .ok term ∧
      List.Forall₂ (fun i e ↦ ∃ t, term (i + 2) = .ok t ∧
        e = put (sheetName .window counter) (i + 1) b.schema.length t) (List.range rows) cells ∧
      P.edits = opening (sheetName .window counter) b.depth.succ (b.schema ++ [output]) ++
        windowCopies counter b ++ cells := by
  unfold window at h
  obtain ⟨copies, hcopies, h⟩ := bind_eq_ok.mp h
  obtain ⟨term, hterm, h⟩ := bind_eq_ok.mp h
  have hmade : copies = windowCopies counter b := by
    refine Except.ok.inj (hcopies.symm.trans (Outcome.mapM_ok fun x hx ↦ ?_))
    dsimp only
    rw [column_of_mem (List.fst_mem_of_mem_zipIdx hx)]
    rfl
  dsimp only at h
  split at h
  · next rows hrows =>
    obtain ⟨cells, hcells, h⟩ := bind_eq_ok.mp h
    refine ⟨rows, term, cells, hrows, hterm, ?_, ?_⟩
    · refine Outcome.Ensures.mapM_forall₂ (fun i _ e he ↦ ?_) cells hcells
      obtain ⟨t, ht, he⟩ := bind_eq_ok.mp he
      exact ⟨t, ht, (Except.ok.inj he).symm⟩
    · rw [← hmade]
      exact (place_keeps _ _ _ _ P h).1
  · cases h

theorem exists_put_window {rows : Nat} {term : Nat → Outcome Term}
    (h : window counter func input output partitionBy orderBy frame b = .ok P)
    (hrows : b.depth = .whole rows)
    (hterm : windowTerm ⟨b, sheetName .window counter, partitionBy, orderBy⟩ func input frame =
      .ok term) {i : Nat} (hi : i < rows) :
    ∃ t, term (i + 2) = .ok t ∧
      put (sheetName .window counter) (i + 1) b.schema.length t ∈ P.edits := by
  obtain ⟨rows', term', cells, hrows', hterm', hcells, hedits⟩ := edits_window h
  obtain rfl := Extent.whole.inj (hrows.symm.trans hrows')
  obtain rfl := Except.ok.inj (hterm.symm.trans hterm')
  obtain ⟨e, he, t, ht, rfl⟩ := exists_of_forall₂ hcells.flip (List.mem_range.mpr hi)
  exact ⟨t, ht, hedits ▸ List.mem_append_right _ he⟩

theorem put_window_inj {row col : Nat} {t u : Term}
    (h : window counter func input output partitionBy orderBy frame b = .ok P)
    (ht : put (sheetName .window counter) row col t ∈ P.edits)
    (hu : put (sheetName .window counter) row col u ∈ P.edits) : t = u := by
  obtain ⟨parts, htidy, -⟩ := window_own func input output partitionBy orderBy frame P h
  by_contra hne
  have hsymm : Std.Symm (Edit.Apart (φ := Term)) := ⟨fun _ _ hde ↦ hde.symm⟩
  have hapart := htidy.apart.forall ht hu (by simpa [put] using hne)
  have hcell : ∀ v, ((row : Int), (col : Int)) ∈ (put (sheetName .window counter) row col v).cells :=
    fun v ↦ by simp [cells_put]
  exact hapart rfl (hcell t) (hcell u)

end Rows

theorem input_of_inputName {func name : String} {runs : Bool} {input : Option String}
    (h : inputName func runs input = .ok name) : input = some name := by
  unfold inputName at h
  split at h
  · cases h
  · cases h
  · rw [Except.ok.inj h]

theorem flatten_mapM_eq_ok {α : Type} {name : α → String} {g : α → Nat → List Term} {xs : List α}
    {schema : List String} {ts : List Term} :
    ((xs.mapM fun x ↦ position schema (name x) >>= fun i ↦ .ok (g x i)) >>= fun gs ↦
      (.ok gs.flatten : Outcome (List Term))) = .ok ts ↔
      (∀ x ∈ xs, name x ∈ schema) ∧ ts = xs.flatMap fun x ↦ g x (schema.idxOf (name x)) := by
  have hok : (∀ x ∈ xs, name x ∈ schema) →
      (xs.mapM fun x ↦ position schema (name x) >>= fun i ↦ .ok (g x i)) =
        .ok (xs.map fun x ↦ g x (schema.idxOf (name x))) := fun h ↦
    Outcome.mapM_ok fun x hx ↦ by rw [position_of_mem (h x hx), ok_bind]
  constructor
  · intro h
    have hin : ∀ x ∈ xs, name x ∈ schema := fun x hx ↦ by
      obtain ⟨gs, hgs, -⟩ := bind_eq_ok.mp h
      exact succeeds_position.mp
        (Outcome.succeeds_bind_ok.mp (Outcome.succeeds_mapM.mp ⟨gs, hgs⟩ x hx))
    rw [hok hin, ok_bind] at h
    exact ⟨hin, (Except.ok.inj h).symm⟩
  · rintro ⟨hin, rfl⟩
    rw [hok hin, ok_bind, List.flatMap_def]

namespace WindowFrame

variable {w : WindowFrame} {number : Nat} {args : List Term} {t column : Term}

def partitionPairs (w : WindowFrame) (number : Nat) : List (Term × Term) :=
  w.partitionBy.map fun n ↦
    (w.block.columnAt (w.block.schema.idxOf n), w.own (w.block.schema.idxOf n) number)

def sign (k : SortKey) (strict : Bool) : String :=
  (if k.direction = .asc then "<" else ">") ++ (if strict then "" else "=")

def orderPairs (w : WindowFrame) (strict : Bool) (number : Nat) : List (Term × Term) :=
  w.orderBy.map fun k ↦
    (w.block.columnAt (w.block.schema.idxOf k.column),
      .binary "&" (.quoted (sign k strict)) (w.own (w.block.schema.idxOf k.column) number))

def tiePairs (w : WindowFrame) (number : Nat) : List (Term × Term) :=
  w.orderBy.flatMap fun k ↦
    let column := w.block.columnAt (w.block.schema.idxOf k.column)
    let here := w.own (w.block.schema.idxOf k.column) number
    [(column, here), (.call "ROW" [column], .binary "&" (.quoted "<=") (.call "ROW" [here]))]

theorem partitionArgs_eq_ok : w.partitionArgs number = .ok args ↔
    w.partitionBy ⊆ w.block.schema ∧ args = pairArgs (w.partitionPairs number) := by
  refine flatten_mapM_eq_ok.trans ?_
  rw [pairArgs, partitionPairs, List.flatMap_map]
  rfl

theorem orderArgs_eq_ok {strict : Bool} : w.orderArgs strict number = .ok args ↔
    (∀ k ∈ w.orderBy, k.column ∈ w.block.schema) ∧
      args = pairArgs (w.orderPairs strict number) := by
  refine flatten_mapM_eq_ok.trans ?_
  rw [pairArgs, orderPairs, List.flatMap_map]
  rfl

theorem tieArgs_eq_ok : w.tieArgs number = .ok args ↔
    (∀ k ∈ w.orderBy, k.column ∈ w.block.schema) ∧ args = pairArgs (w.tiePairs number) := by
  refine flatten_mapM_eq_ok.trans ?_
  rw [pairArgs, tiePairs, List.flatMap_assoc]
  rfl

/-- The rank of a row counts the rows up to it; its number counts those before it and the ties that
do not stand below it. -/
theorem rank_eq_ok {numbered : Bool} : w.rank numbered number = .ok t ↔
    ordersBy w.block.schema w.partitionBy w.orderBy ∧
      t = if numbered then
        .binary "+"
          (.call "COUNTIFS" (pairArgs (w.partitionPairs number ++ w.orderPairs true number)))
          (.call "COUNTIFS" (pairArgs (w.partitionPairs number ++ w.tiePairs number)))
      else .call "COUNTIFS" (pairArgs (w.partitionPairs number ++ w.orderPairs false number)) := by
  simp only [rank, bind_eq_ok, partitionArgs_eq_ok, orderArgs_eq_ok, ordersBy]
  cases numbered with
  | false =>
    simp only [Bool.false_eq_true, if_false, Outcome.pure_eq, Except.ok.injEq]
    constructor
    · rintro ⟨_, ⟨hp, rfl⟩, _, ⟨ho, rfl⟩, rfl⟩
      exact ⟨⟨hp, ho⟩, by rw [pairArgs_append]⟩
    · rintro ⟨⟨hp, ho⟩, rfl⟩
      exact ⟨_, ⟨hp, rfl⟩, _, ⟨ho, rfl⟩, by rw [pairArgs_append]⟩
  | true =>
    simp only [if_true, Outcome.pure_eq, bind_eq_ok, tieArgs_eq_ok, Except.ok.injEq]
    constructor
    · rintro ⟨_, ⟨hp, rfl⟩, _, ⟨ho, rfl⟩, _, ⟨-, rfl⟩, rfl⟩
      exact ⟨⟨hp, ho⟩, by rw [pairArgs_append, pairArgs_append]⟩
    · rintro ⟨⟨hp, ho⟩, rfl⟩
      exact ⟨_, ⟨hp, rfl⟩, _, ⟨ho, rfl⟩, _, ⟨ho, rfl⟩, by rw [pairArgs_append, pairArgs_append]⟩

/-- A running aggregate takes the rows up to a row. Without criteria there is an empty text in their
place. -/
theorem running_eq_ok {func : String} : w.running func column number = .ok t ↔
    ordersBy w.block.schema w.partitionBy w.orderBy ∧
      t = .call func (column ::
        if w.partitionPairs number ++ w.orderPairs false number = [] then [.text ""]
        else pairArgs (w.partitionPairs number ++ w.orderPairs false number)) := by
  have hargs : ∀ args, (if args.isEmpty then [Term.text ""] else args) =
      if args = [] then [.text ""] else args := fun args ↦ by cases args <;> rfl
  simp only [running, bind_eq_ok, partitionArgs_eq_ok, orderArgs_eq_ok, ordersBy,
    Outcome.pure_eq, Except.ok.injEq, hargs]
  constructor
  · rintro ⟨_, ⟨hp, rfl⟩, _, ⟨ho, rfl⟩, rfl⟩
    exact ⟨⟨hp, ho⟩, by simp only [pairArgs_append, pairArgs_eq_nil]⟩
  · rintro ⟨⟨hp, ho⟩, rfl⟩
    exact ⟨_, ⟨hp, rfl⟩, _, ⟨ho, rfl⟩, by simp only [pairArgs_append, pairArgs_eq_nil]⟩

end WindowFrame

theorem accumulated_eq_ok {w : WindowFrame} {func : String} {input : Option String} {frame : Datum}
    {term : Nat → Outcome Term} (h : accumulated w func input frame = .ok term) :
    ∃ f name, runningFunction? func = some f ∧ input = some name ∧ name ∈ w.block.schema ∧
      term = w.running f (w.block.columnAt (w.block.schema.idxOf name)) := by
  unfold accumulated at h
  split at h
  · cases h
  · next f hf =>
    split at h
    · cases h
    · obtain ⟨name, hname, h⟩ := bind_eq_ok.mp h
      obtain ⟨column, hcolumn, h⟩ := bind_eq_ok.mp h
      obtain rfl := Except.ok.inj h
      have hmem : name ∈ w.block.schema := Block.succeeds_column.mp ⟨column, hcolumn⟩
      obtain rfl := Except.ok.inj (hcolumn.symm.trans (column_of_mem hmem))
      exact ⟨f, name, hf, input_of_inputName hname, hmem, rfl⟩

end Gridplan.Layout
