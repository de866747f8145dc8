import Gridplan.Layout.Plan
import Gridplan.Proofs.Layout.Parts
import Mathlib.Tactic

namespace Gridplan.Layout

variable {body : List Step} {t : Term} {name : String} {n depth : Nat}

def endings : List String := ["", "_filtered", "_left", "_anti", "_distinct"]

/-- Whether a sheet is for the node of a given kind and number. -/
def Belongs (kind : Kind) (number : Nat) (name : String) : Prop :=
  ∃ e ∈ endings, name = sheetName kind number ++ e

def middle (name : String) : List Char :=
  ((name.toList.dropWhile (· != '_')).drop 1).takeWhile (· != '_')

theorem title_ne_underscore (kind : Kind) : kind.title.toList.all (· != '_') = true := by
  cases kind <;> rfl

theorem middle_eq {kind : Kind} {number : Nat} (h : Belongs kind number name) :
    middle name = Nat.toDigits 10 number := by
  obtain ⟨e, he, rfl⟩ := h
  have htitle := List.all_eq_true.mp (title_ne_underscore kind)
  have hdigits : ∀ c ∈ Nat.toDigits 10 number, (c != '_') = true := by
    intro c hc
    have hne : c ≠ '_' := by
      rintro rfl
      exact Nat.underscore_not_in_toDigits hc
    simpa using hne
  have hend : e.toList.takeWhile (· != '_') = [] := by
    revert e
    decide
  have hname : (sheetName kind number ++ e).toList =
      kind.title.toList ++ '_' :: (Nat.toDigits 10 number ++ e.toList) := by
    simp [sheetName, String.toList_append]
  rw [middle, hname, List.dropWhile_append_of_pos htitle, List.dropWhile_cons_of_neg (by decide),
    List.drop_one, List.tail_cons, List.takeWhile_append_of_pos hdigits, hend, List.append_nil]

theorem Belongs.number_eq {kind kind' : Kind} {m n : Nat} (hm : Belongs kind m name)
    (hn : Belongs kind' n name) : m = n := by
  have h : Nat.toDigits 10 m = Nat.toDigits 10 n := (middle_eq hm).symm.trans (middle_eq hn)
  rw [← Nat.ofDigitChars_ten_toDigits (n := m), h, Nat.ofDigitChars_ten_toDigits]

theorem belongs_self (kind : Kind) (number : Nat) : Belongs kind number (sheetName kind number) :=
  ⟨"", by simp [endings], by simp⟩

@[simp] theorem self_eq_append {s e : String} : s = s ++ e ↔ e = "" := by
  rw [eq_comm, String.append_eq_left_iff]

theorem belongs_outerJoin (number : Nat) :
    ∀ name ∈ [sheetName .join number ++ "_left", sheetName .join number ++ "_anti"],
      Belongs .join number name := by
  refine List.forall_mem_cons.mpr ⟨⟨"_left", by simp [endings], rfl⟩, ?_⟩
  exact List.forall_mem_singleton.mpr ⟨"_anti", by simp [endings], rfl⟩

open Formula
open Block (every_column)
open Extent (succ_whole)
open Outcome (Ensures)

variable {kind : Kind} {counter rows cols last : Nat} {sheet : String}
  {names known schema : List String} {good : Ref → Prop} {P : Placement} {b l r : Block}

/-- Whether a block starts at the first cell and ends in a whole row. -/
def Rooted (b : Block) : Prop := b.part = none ∧ b.range.row = 0 ∧ b.range.col = 0

theorem Rooted.depth_eq (h : Rooted b) : b.depth = .whole b.range.rowEnd := by
  simp [Block.depth, Block.rowEnd, h.1, h.2.1, Extent.less]

/-- What the placement of a node with a given number is made of. Its block has the given schema and
ends in the given row. -/
structure Placed (kind : Kind) (counter : Nat) (known schema : List String) (last : Nat)
    (P : Placement) (parts : List Part) : Prop where
  edits : P.edits = parts.flatMap Part.edits
  chained : Chained known parts
  nodup : (parts.map Part.name).Nodup
  belongs : ∀ p ∈ parts, Belongs kind counter p.name
  block : P.block.sheet ∈ parts.map Part.name
  rooted : Rooted P.block
  schema : P.block.schema = schema
  last : P.block.range.rowEnd = last
  titled : kind ≠ .pivot → P.block.range.colEnd + 1 = P.block.schema.length ∧
    ∃ p ∈ parts, p.name = P.block.sheet ∧ p.Titled P.block.schema

/-- Whether a block stands at the origin of a sheet, as wide as its schema and down to a row. -/
structure Occupies (b : Block) (sheet : String) (schema : List String) (last : Nat) : Prop where
  sheet : b.sheet = sheet
  schema : b.schema = schema
  rooted : Rooted b
  last : b.range.rowEnd = last
  width : b.range.colEnd + 1 = b.schema.length

def Cites (b : Block) (r : Ref) : Prop :=
  r ∈ b.body.refs ∨ (∃ i < b.schema.length, r ∈ (b.columnAt i).refs) ∨
    ∃ low < b.schema.length, ∃ high < b.schema.length, r ∈ (keyRange b low high).refs

/-- Whether a reference is to cells in the grid of the sheet it stands on. -/
def Inner (sheet : String) (rows cols : Nat) (r : Ref) : Prop :=
  r.sheet.getD sheet = sheet ∧ ∀ c ∈ r.corners, c.col < cols ∧ 1 ≤ c.number ∧ c.number ≤ rows

/-- Whether an edit writes a formula under the header or anywhere in the grid of a sheet, with
references that are good or to this grid. -/
def Drawn (good : Ref → Prop) (sheet : String) (rows cols : Nat) (e : Step) : Prop :=
  ∃ row col t, e = put sheet row col t ∧ (row = 1 ∨ row < rows) ∧ col < cols ∧
    t.Every fun r ↦ good r ∨ Inner sheet rows cols r

/-- Whether a placement ends with a sheet of such formulas, on which its block stands. -/
structure Ends (before : List Part) (good : Ref → Prop) (sheet : String) (rows last : Nat)
    (schema : List String) (P : Placement) : Prop where
  edits : ∃ body, P.edits =
      before.flatMap Part.edits ++ (opening sheet (.whole rows) schema ++ body) ∧
    ∀ e ∈ body, Drawn good sheet rows schema.length e
  block : Occupies P.block sheet schema last

theorem Cites.sheet_eq {ref : Ref} (h : Cites b ref) : ref.sheet = some b.sheet := by
  rcases h with h | ⟨i, -, h⟩ | ⟨low, -, high, -, h⟩
  · exact Block.sheet_of_mem_body h
  · exact Block.sheet_of_mem_upTo h
  · exact Block.sheet_of_mem_upTo h

theorem columns_of_cites (h : ∀ r, Cites b r → good r) : b.Columns good :=
  fun i hi r hr ↦ h r (.inr (.inl ⟨i, hi, hr⟩))

theorem body_of_cites (h : ∀ r, Cites b r → good r) : b.body.Every good :=
  fun r hr ↦ h r (.inl hr)

theorem Inner.sheet_eq {ref : Ref} (h : Inner sheet rows cols ref) :
    ∀ s ∈ ref.sheet, s = sheet := by
  intro s hs
  have := h.1
  rwa [hs, Option.getD_some] at this

theorem drawn_put {row col : Nat} (hrow : row = 1 ∨ row < rows) (hcol : col < cols)
    (ht : t.Every fun r ↦ good r ∨ Inner sheet rows cols r) :
    Drawn good sheet rows cols (put sheet row col t) :=
  ⟨row, col, t, rfl, hrow, hcol, ht⟩

theorem place_ensures (sheet : String) (schema : List String) (last : Nat) (edits : List Step) :
    Ensures (place sheet schema (.whole last) edits) fun P ↦
      P.edits = edits ∧ Occupies P.block sheet schema last := by
  intro P h
  simp only [place, Outcome.bind_eq_ok] at h
  obtain ⟨range, hrange, h⟩ := h
  obtain rfl := Except.ok.inj h
  simp only [Range.fromOrigin, Range.ofCorners] at hrange
  split at hrange
  · cases hrange
  · split at hrange
    · cases hrange
    · obtain rfl := Except.ok.inj hrange
      refine ⟨rfl, rfl, rfl, ⟨rfl, rfl, rfl⟩, ?_, ?_⟩ <;> simp only <;> omega

theorem place_ends (before : List Part)
    (hbody : 0 < schema.length → ∀ e ∈ body, Drawn good sheet rows schema.length e) :
    Ensures (place sheet schema (.whole last)
      (before.flatMap Part.edits ++ (opening sheet (.whole rows) schema ++ body)))
      (Ends before good sheet rows last schema) := by
  refine (place_ensures _ _ _ _).mono fun P ⟨hedits, hblock⟩ ↦ ⟨⟨body, hedits, hbody ?_⟩, hblock⟩
  rw [← hblock.schema, ← hblock.width]
  exact Nat.succ_pos _

theorem place_sole (hbody : 0 < schema.length → ∀ e ∈ body, Drawn good sheet rows schema.length e) :
    Ensures (place sheet schema (.whole last) (opening sheet (.whole rows) schema ++ body))
      (Ends [] good sheet rows last schema) :=
  place_ends [] hbody

theorem place_formula (ht : t.Every good) :
    Ensures (place sheet schema (.whole last)
      (opening sheet (.whole rows) schema ++ [put sheet 1 0 t]))
      (Ends [] good sheet rows last schema) :=
  place_sole fun hpos ↦
    List.forall_mem_singleton.mpr (drawn_put (.inl rfl) hpos (ht.mono fun _ ↦ .inl))

def Part.opened (sheet : String) (rows : Nat) (schema : List String) (body : List Step) : Part :=
  ⟨sheet, .int rows, schema.length, header sheet schema :: body⟩

theorem Part.edits_opened (sheet : String) (rows : Nat) (schema : List String) (body : List Step) :
    (Part.opened sheet rows schema body).edits = opening sheet (.whole rows) schema ++ body := rfl

theorem Part.create_mem_opened :
    .create sheet (.int rows) schema.length ∈ (Part.opened sheet rows schema body).edits :=
  List.mem_cons_self

def Rests (name : String) (names : List String) (e : Step) : Prop :=
  Part.Fills name names e ∧ e.heads name = false

theorem Drawn.rests {e : Step} (h : Drawn good sheet rows cols e)
    (hgood : ∀ r, good r → ∀ s ∈ r.sheet, s ∈ names) (hsheet : sheet ∈ names) :
    Rests sheet names e := by
  obtain ⟨row, col, t, rfl, -, -, ht⟩ := h
  refine ⟨fills_put.mpr fun r hr s hs ↦ ?_, rfl⟩
  rcases ht r hr with h | h
  · exact hgood r h s hs
  · exact h.sheet_eq s hs ▸ hsheet

theorem Part.titled_opened (hrows : 1 ≤ rows) (hbody : ∀ e ∈ body, Rests sheet names e) :
    (Part.opened sheet rows schema body).Titled schema where
  rows := ⟨rows - 1, by simp only [opened]; congr 1; omega⟩
  cols := rfl
  body := ⟨body, rfl, fun e he ↦ (hbody e he).2⟩

theorem Part.fills_opened (hbody : ∀ e ∈ body, Rests sheet names e) :
    ∀ e ∈ (Part.opened sheet rows schema body).body, Part.Fills sheet names e := by
  intro e he
  rcases List.mem_cons.mp he with rfl | he
  · rfl
  · exact (hbody e he).1

theorem Occupies.placed (before : List Part) (hblock : Occupies P.block sheet schema last)
    (hedits : P.edits = before.flatMap Part.edits ++ (opening sheet (.whole rows) schema ++ body))
    (hrows : 1 ≤ rows) (hbefore : Chained known before)
    (hbody : ∀ e ∈ body, Rests sheet (sheet :: (before.map Part.name ++ known)) e)
    (hnodup : (before.map Part.name ++ [sheet]).Nodup)
    (hbelongs : ∀ p ∈ before, Belongs kind counter p.name) (hsheet : Belongs kind counter sheet) :
    ∃ parts, Placed kind counter known schema last P parts := by
  refine ⟨before ++ [Part.opened sheet rows schema body], ?_, ?_, ?_, ?_, ?_, hblock.rooted,
    hblock.schema, hblock.last, ?_⟩
  · rw [hedits, List.flatMap_append, ← Part.edits_opened]
    simp
  · exact hbefore.append ⟨Part.fills_opened hbody, trivial⟩
  · simpa [Part.opened] using hnodup
  · simpa [or_imp, forall_and, Part.opened] using ⟨hbelongs, hsheet⟩
  · simp [Part.opened, hblock.sheet]
  · intro _
    refine ⟨hblock.width, Part.opened sheet rows schema body, by simp, hblock.sheet.symm, ?_⟩
    rw [hblock.schema]
    exact Part.titled_opened hrows hbody

theorem Ends.placed {before : List Part} (h : Ends before good sheet rows last schema P)
    (hrows : 1 ≤ rows) (hbefore : Chained known before)
    (hgood : ∀ r, good r → ∀ s ∈ r.sheet, s ∈ before.map Part.name ++ known)
    (hnodup : (before.map Part.name ++ [sheet]).Nodup)
    (hbelongs : ∀ p ∈ before, Belongs kind counter p.name)
    (hsheet : Belongs kind counter sheet) :
    ∃ parts, Placed kind counter known schema last P parts := by
  obtain ⟨body, hedits, hbody⟩ := h.edits
  refine h.block.placed before hedits hrows hbefore (fun e he ↦ ?_) hnodup hbelongs hsheet
  exact (hbody e he).rests (fun r hr s hs ↦ List.mem_cons_of_mem _ (hgood r hr s hs)) (by simp)

theorem Ends.placed_sole (h : Ends [] good (sheetName kind counter) rows last schema P)
    (hrows : 1 ≤ rows) (hgood : ∀ r, good r → ∀ s ∈ r.sheet, s ∈ known) {vacant : Bool}
    (hvacant : (last == 0) = vacant) :
    ∃ last parts, Placed kind counter known schema last P parts ∧ (last == 0) = vacant := by
  obtain ⟨parts, hparts⟩ := h.placed hrows trivial (by simpa using hgood) (by simp) (by simp)
    (belongs_self ..)
  exact ⟨last, parts, hparts, hvacant⟩

theorem sheet_of_cites (hin : b.sheet ∈ known) (r : Ref) (hr : Cites b r) :
    ∀ s ∈ r.sheet, s ∈ known := by
  intro s hs
  obtain rfl : b.sheet = s := Option.some.inj (hr.sheet_eq.symm.trans hs)
  exact hin

@[simp] theorem every_cell {col number : Nat} :
    (cell sheet col number).Every good ↔
      good { sheet := some sheet, first := { col, number } } := by
  simp [cell]

@[simp] theorem every_blank : blank.Every good := by simp [blank]

@[simp] theorem every_spread : (spread t).Every good ↔ t.Every good := by
  simp [spread]

@[simp] theorem every_notBlank : (notBlank t).Every good ↔ t.Every good := by
  simp [notBlank]

@[simp] theorem every_sideBySide {ts : List Term} :
    (sideBySide ts).Every good ↔ ∀ t ∈ ts, t.Every good := by
  unfold sideBySide
  split <;> simp

@[simp] theorem every_allOf {c : Term} {cs : List Term} :
    (allOf c cs).Every good ↔ c.Every good ∧ ∀ t ∈ cs, t.Every good := by
  unfold allOf
  split <;> simp

theorem every_extra (hb : b.Columns good) (predicate : Option Expr) :
    Ensures (extra b predicate) fun ts ↦ ∀ t ∈ ts, t.Every good := by
  unfold extra
  split
  · split
    · exact (Block.every_condition hb _).bind fun t ht ↦ .ok (by simpa using ht)
    · exact .ok (by simp)
  · exact .ok (by simp)

theorem every_firstColumn (hb : b.Columns good) : Ensures (firstColumn b) (Term.Every good) := by
  unfold firstColumn
  split
  · exact .error _
  · exact every_column hb _

theorem every_flatten {tss : List (List Term)} (h : ∀ ts ∈ tss, ∀ t ∈ ts, t.Every good) :
    ∀ t ∈ tss.flatten, t.Every good := by
  intro t ht
  obtain ⟨ts, hts, ht⟩ := List.mem_flatten.mp ht
  exact h ts hts t ht

theorem source_drawn (schema : Option (List String)) (data : Datum) :
    Ensures (source counter schema data) fun P ↦
      P.edits = opening (sheetName .source counter) (.whole (rowCount data + 1)) (schema.getD []) ++
        [.values (sheetName .source counter) 1 0 data] ∧
      Occupies P.block (sheetName .source counter) (schema.getD []) (rowCount data) := by
  unfold source
  split
  · exact .error _
  · exact .error _
  · exact place_ensures _ _ _ _

theorem source_placed (schema : Option (List String)) (data : Datum) :
    Ensures (source counter schema data) fun P ↦
      ∃ parts, Placed .source counter known (schema.getD []) (rowCount data) P parts := by
  refine (source_drawn schema data).mono fun P ⟨hedits, hblock⟩ ↦ ?_
  refine hblock.placed [] hedits (by omega) trivial ?_ (by simp) (by simp)
    (belongs_self ..)
  intro e he
  obtain rfl := List.mem_singleton.mp he
  exact ⟨rfl, by simp [Edit.heads]⟩

theorem select_drawn (hb : Rooted b) (columns : List String) (predicate : Option Expr) :
    Ensures (select counter columns predicate b) (Ends [] (Cites b) (sheetName .select counter)
      (b.range.rowEnd + 1) (b.range.rowEnd + 1) columns) := by
  have hc : b.Columns (Cites b) := columns_of_cites fun _ ↦ id
  have hrefs : Ensures (projected b columns) fun ts ↦ ∀ t ∈ ts, t.Every (Cites b) := by
    refine .mapM fun n _ ↦ ?_
    split
    · exact every_column hc n
    · exact .error _
  unfold select
  refine hrefs.bind fun refs hrefs ↦ ?_
  refine (every_firstColumn hc).bind fun c hc' ↦ ?_
  refine (every_extra hc predicate).bind fun cs hcs ↦ ?_
  rw [hb.depth_eq, succ_whole]
  exact place_formula (by simpa [hc'] using ⟨hrefs, hcs⟩)

theorem filter_drawn (hb : Rooted b) (predicate : Expr) :
    Ensures (filter counter predicate b) (Ends [] (Cites b) (sheetName .filter counter)
      (b.range.rowEnd + 1) b.range.rowEnd b.schema) := by
  unfold filter
  refine (Block.every_condition (columns_of_cites fun _ ↦ id) predicate).bind fun c hc ↦ ?_
  rw [hb.depth_eq, succ_whole]
  exact place_formula (by simpa [hc] using body_of_cites fun _ ↦ id)

def sortedRows (cap : Option Nat) (depth : Nat) : Nat :=
  match cap with
  | none | some 0 => depth + 1
  | some n => min n depth + 1

def sortedLast (cap : Option Nat) (depth : Nat) : Nat :=
  match cap with
  | none | some 0 => depth + 1
  | some n => min n (depth + 1)

theorem sortedRows_some (hn : 0 < n) : sortedRows (some n) depth = min n depth + 1 := by
  obtain ⟨n, rfl⟩ := Nat.exists_eq_add_one.mpr hn
  rfl

theorem sortedLast_some (hn : 0 < n) : sortedLast (some n) depth = min n (depth + 1) := by
  obtain ⟨n, rfl⟩ := Nat.exists_eq_add_one.mpr hn
  rfl

theorem sortedRows_pos (cap : Option Nat) (depth : Nat) : 1 ≤ sortedRows cap depth := by
  unfold sortedRows
  split <;> omega

theorem sortedLast_pos (cap : Option Nat) (depth : Nat) : 1 ≤ sortedLast cap depth := by
  unfold sortedLast
  split
  · omega
  · omega
  · next n hn =>
    have : n ≠ 0 := fun h ↦ hn (by rw [h])
    omega

theorem sortedLast_le (cap : Option Nat) (depth : Nat) :
    sortedLast cap depth ≤ sortedRows cap depth := by
  unfold sortedLast sortedRows
  split <;> omega

def sorted (keys : List SortKey) (predicate : Option Expr) (b : Block) : Outcome Term := do
  let args ← keys.mapM (sortArgs b)
  let filled := notBlank (← firstColumn b)
  let conditions ← extra b predicate
  return .call "SORT" (.call "FILTER" [b.body, allOf filled conditions] :: args.flatten)

def cutOff (cap : Option Nat) (width : Nat) (t : Term) : Term :=
  match cap with
  | none | some 0 => t
  | some n => .call "ARRAY_CONSTRAIN" [t, .int n, .int width]

theorem sort_eq_place {depth : Nat} (hb : b.depth = .whole depth) (keys : List SortKey)
    (cap : Option Nat) (predicate : Option Expr) :
    sort counter keys (cap.map .ofNat) predicate b = sorted keys predicate b >>= fun t ↦
      place (sheetName .sort counter) b.schema (.whole (sortedLast cap depth))
        (opening (sheetName .sort counter) (.whole (sortedRows cap depth)) b.schema ++
          [put (sheetName .sort counter) 1 0 (cutOff cap b.schema.length t)]) := by
  simp only [sort, sorted, hb, succ_whole, bind_assoc]
  refine bind_congr fun args ↦ bind_congr fun first ↦ bind_congr fun conditions ↦ ?_
  cases cap with
  | none => rfl
  | some n =>
    cases n with
    | zero => rfl
    | succ n =>
      have heffective : effective ((some (n + 1)).map Amount.ofNat) = some (.ofNat (n + 1)) := rfl
      simp only [heffective, Amount.ofNat, succ_whole, Extent.least_whole]
      have hlast : min (n + 1) (min (n + 1 + 1) (depth + 1)) = sortedLast (some (n + 1)) depth := by
        rw [sortedLast_some (Nat.succ_pos n)]
        omega
      have hrows : min (n + 1 + 1) (depth + 1) = sortedRows (some (n + 1)) depth := by
        rw [sortedRows_some (Nat.succ_pos n)]
        omega
      rw [hlast, hrows]
      rfl

theorem every_cutOff (ht : t.Every good) (cap : Option Nat) (width : Nat) :
    (cutOff cap width t).Every good := by
  unfold cutOff
  split
  · exact ht
  · exact ht
  · simpa using ht

theorem sort_drawn (hb : Rooted b) (keys : List SortKey) (cap : Option Nat)
    (predicate : Option Expr) :
    Ensures (sort counter keys (cap.map Amount.ofNat) predicate b)
      (Ends [] (Cites b) (sheetName .sort counter) (sortedRows cap b.range.rowEnd)
        (sortedLast cap b.range.rowEnd) b.schema) := by
  have hcols : b.Columns (Cites b) := columns_of_cites fun _ ↦ id
  have hbody : b.body.Every (Cites b) := body_of_cites fun _ ↦ id
  have hargs : Ensures (keys.mapM (sortArgs b)) fun tss ↦ ∀ ts ∈ tss, ∀ t ∈ ts,
      t.Every (Cites b) := by
    refine .mapM fun k _ ↦ ?_
    exact .skip fun i ↦ .ok (by simp)
  have hsorted : Ensures (sorted keys predicate b) (Term.Every (Cites b)) := by
    refine hargs.bind fun args hargs ↦ ?_
    refine (every_firstColumn hcols).bind fun c hc ↦ ?_
    refine (every_extra hcols predicate).bind fun cs hcs ↦ .ok ?_
    have hargs' := every_flatten hargs
    simp only [Term.every_call, List.forall_mem_cons]
    exact ⟨by simpa [hbody, hc] using hcs, hargs'⟩
  rw [sort_eq_place hb.depth_eq]
  exact hsorted.bind fun t ht ↦ place_formula (every_cutOff ht cap b.schema.length)

theorem limit_eq_place {depth : Nat} (hb : b.depth = .whole depth) (count : Nat) (side : Side) :
    limit counter (.ofNat count) side b =
      place (sheetName .limit counter) b.schema (.whole (min count depth + 1))
        (opening (sheetName .limit counter) (.whole (min count depth + 1)) b.schema ++
          [put (sheetName .limit counter) 1 0 (limited (.ofNat count) side b)]) := by
  simp only [limit, Amount.ofNat, hb, Extent.least_whole, succ_whole]

theorem limit_drawn (hb : Rooted b) (count : Nat) (side : Side) :
    Ensures (limit counter (.ofNat count) side b) (Ends [] (Cites b) (sheetName .limit counter)
      (min count b.range.rowEnd + 1) (min count b.range.rowEnd + 1) b.schema) := by
  have hbody : b.body.Every (Cites b) := body_of_cites fun _ ↦ id
  rw [limit_eq_place hb.depth_eq]
  refine place_formula ?_
  cases side <;> simp [limited, Amount.ofNat, hbody]

theorem every_woven (hb : b.Columns good) (text : String) : (woven b text).Every good := by
  simp only [woven, Term.every_woven, List.mem_flatMap]
  rintro r ⟨⟨n, i⟩, hi, hr⟩
  exact hb i (by simpa using List.snd_lt_of_mem_zipIdx hi) r hr

theorem every_computed (hb : b.Columns good) (e : Expr) :
    Ensures (computed b e) (Term.Every good) := by
  unfold computed
  split
  · exact .ok (every_woven hb _)
  · exact .ok (every_woven hb _)
  · exact Block.every_expression hb _

theorem lt_of_mem_zipIdx {α : Type} {xs : List α} {x : α × Nat} (h : x ∈ xs.zipIdx) :
    x.2 < xs.length := by
  simpa using List.snd_lt_of_mem_zipIdx h

theorem withColumn_drawn (hb : Rooted b) (column : String) (expression : Expr) :
    Ensures (withColumn counter column expression b)
      (Ends [] (Cites b) (sheetName .withColumn counter) (b.range.rowEnd + 1) (b.range.rowEnd + 1)
        (withName b.schema column)) := by
  have hcols : b.Columns (Cites b) := columns_of_cites fun _ ↦ id
  unfold withColumn
  refine Ensures.bind (P := fun es ↦ ∀ e ∈ es, Drawn (Cites b) (sheetName .withColumn counter)
    (b.range.rowEnd + 1) (withName b.schema column).length e) ?_ fun copies hcopies ↦ ?_
  · refine .filterMapM fun x hx ↦ ?_
    dsimp only
    split
    · exact .ok (by simp)
    · refine (every_column hcols _).bind fun t ht ↦ .ok fun e he ↦ ?_
      obtain rfl := Option.some.inj he
      exact drawn_put (.inl rfl) (lt_of_mem_zipIdx hx) (by simpa using ht.mono fun _ ↦ .inl)
  refine (every_computed hcols expression).bind fun t ht ↦ ?_
  refine (position_lt _ _).bind fun j hj ↦ ?_
  rw [hb.depth_eq, succ_whole, List.append_assoc]
  refine place_sole fun _ ↦ List.forall_mem_append.mpr ⟨hcopies, List.forall_mem_singleton.mpr ?_⟩
  exact drawn_put (.inl rfl) hj (by simpa using ht.mono fun _ ↦ .inl)

theorem union_drawn (hl : Rooted l) (hr : Rooted r) :
    Ensures (union counter l r) (Ends [] (fun ref ↦ Cites l ref ∨ Cites r ref)
      (sheetName .union counter) (l.range.rowEnd + r.range.rowEnd + 1)
      (l.range.rowEnd + r.range.rowEnd + 1) l.schema) := by
  unfold union
  split
  · simp only [hl.depth_eq, hr.depth_eq, Extent.add_whole, succ_whole]
    have hlb : l.body.Every fun ref ↦ Cites l ref ∨ Cites r ref := body_of_cites fun _ ↦ .inl
    have hrb : r.body.Every fun ref ↦ Cites l ref ∨ Cites r ref := body_of_cites fun _ ↦ .inr
    exact place_formula (by simp [hlb, hrb])
  · exact .error _

theorem sheet_of_either (hl : l.sheet ∈ known) (hr : r.sheet ∈ known) (ref : Ref)
    (h : Cites l ref ∨ Cites r ref) : ∀ s ∈ ref.sheet, s ∈ known :=
  h.elim (sheet_of_cites hl ref) (sheet_of_cites hr ref)

section Join

variable {s : Sides}

def Sides.Cites (s : Sides) (ref : Ref) : Prop := Layout.Cites s.left ref ∨ Layout.Cites s.right ref

theorem every_leftKey (h : s.left.Columns good) : Ensures s.leftKey (Term.Every good) := by
  unfold Sides.leftKey
  split
  · exact .error _
  · exact every_column h _

theorem every_rightKey (h : s.right.Columns good) : Ensures s.rightKey (Term.Every good) := by
  unfold Sides.rightKey
  split
  · exact .error _
  · exact every_column h _

@[simp] theorem every_lookup {key search result : Term} :
    (lookup key search result).Every good ↔
      key.Every good ∧ search.Every good ∧ result.Every good := by
  simp [lookup]

theorem left_columns : s.left.Columns s.Cites := columns_of_cites fun _ ↦ .inl

theorem right_columns : s.right.Columns s.Cites := columns_of_cites fun _ ↦ .inr

theorem drawn_carried {x : String × Nat} (hx : x ∈ s.carried.zipIdx) (ht : t.Every good) :
    Drawn good sheet rows s.schema.length (put sheet 1 (s.left.schema.length + x.2) t) := by
  refine drawn_put (.inl rfl) ?_ (ht.mono fun _ ↦ .inl)
  rw [Sides.schema, List.length_append]
  exact Nat.add_lt_add_left (lt_of_mem_zipIdx hx) _

theorem drawn_left {x : String × Nat} (hx : x ∈ s.left.schema.zipIdx) (ht : t.Every good) :
    Drawn good sheet rows s.schema.length (put sheet 1 x.2 t) := by
  refine drawn_put (.inl rfl) ?_ (ht.mono fun _ ↦ .inl)
  rw [Sides.schema, List.length_append]
  exact Nat.lt_add_right _ (lt_of_mem_zipIdx hx)

theorem leftColumns_drawn (rows : Nat) :
    Ensures (leftColumns sheet s) fun es ↦
      ∀ e ∈ es, Drawn s.Cites sheet rows s.schema.length e := by
  unfold leftColumns
  refine (every_leftKey left_columns).bind fun key hkey ↦ ?_
  refine (every_rightKey right_columns).bind fun search hsearch ↦ ?_
  refine Ensures.bind (P := fun es ↦ ∀ e ∈ es, Drawn s.Cites sheet rows s.schema.length e) ?_
    fun found hfound ↦ .ok (List.forall_mem_append.mpr ⟨?_, hfound⟩)
  · refine .mapM fun x hx ↦ (every_column right_columns _).bind fun t ht ↦ .ok ?_
    exact drawn_carried hx (by simpa using ⟨hkey, hsearch, ht⟩)
  · refine List.forall_mem_map.mpr fun x hx ↦ drawn_left hx ?_
    simpa using left_columns _ (lt_of_mem_zipIdx hx)

theorem leftJoin_drawn (hs : Rooted s.left) :
    Ensures (leftJoin counter s) (Ends [] s.Cites (sheetName .join counter)
      (s.left.range.rowEnd + 1) (s.left.range.rowEnd + 1) s.schema) := by
  unfold leftJoin
  refine (leftColumns_drawn (s.left.range.rowEnd + 1)).bind fun body hbody ↦ ?_
  rw [hs.depth_eq, succ_whole]
  exact place_sole fun _ ↦ hbody

theorem innerJoin_drawn (hs : Rooted s.left) :
    Ensures (innerJoin counter s) fun P ↦ ∃ J first,
      Occupies J (sheetName .join counter) s.schema (s.left.range.rowEnd + 1) ∧
      (∀ e ∈ first, Drawn s.Cites (sheetName .join counter) (s.left.range.rowEnd + 1)
        s.schema.length e) ∧
      Ends [Part.opened (sheetName .join counter) (s.left.range.rowEnd + 1) s.schema first]
        (Cites J) (sheetName .join counter ++ "_filtered") (s.left.range.rowEnd + 1)
        (s.left.range.rowEnd + 1) s.schema P := by
  unfold innerJoin
  refine (leftJoin_drawn hs).bind fun J ⟨⟨first, hedits, hfirst⟩, hJ⟩ ↦ ?_
  have hcols : J.block.Columns (Cites J.block) := columns_of_cites fun _ ↦ id
  have hbody : J.block.body.Every (Cites J.block) := body_of_cites fun _ ↦ id
  refine Ensures.bind (P := fun ts ↦ ∀ t ∈ ts, t.Every (Cites J.block)) ?_ fun checks hchecks ↦ ?_
  · exact .mapM fun n _ ↦ (every_column hcols n).bind fun t ht ↦ .ok (by simpa using ht)
  rw [hs.depth_eq, succ_whole, hJ.sheet]
  dsimp only
  have hparts : J.edits = [Part.opened (sheetName .join counter) (s.left.range.rowEnd + 1) s.schema
      first].flatMap Part.edits := by
    simpa [Part.edits_opened] using hedits
  rw [List.append_assoc, hparts]
  refine (place_ends _ fun hpos ↦ ?_).mono fun P hP ↦ ⟨J.block, first, hJ, hfirst, hP⟩
  split
  · simp
  · refine List.forall_mem_singleton.mpr (drawn_put (.inl rfl) hpos (.mono ?_ fun _ ↦ .inl))
    simpa [hbody] using hchecks

theorem rightJoin_drawn (hs : Rooted s.right) :
    Ensures (rightJoin counter s) (Ends [] s.Cites (sheetName .join counter)
      (s.right.range.rowEnd + 1) (s.right.range.rowEnd + 1) s.schema) := by
  let good := Drawn s.Cites (sheetName .join counter) (s.right.range.rowEnd + 1) s.schema.length
  unfold rightJoin
  refine (every_rightKey right_columns).bind fun key hkey ↦ ?_
  refine (every_leftKey left_columns).bind fun search hsearch ↦ ?_
  refine Ensures.bind (P := fun es ↦ ∀ e ∈ es, good e) ?_ fun found hfound ↦ ?_
  · refine .mapM fun x hx ↦ (every_column left_columns _).bind fun t ht ↦ .ok ?_
    exact drawn_left hx (by simpa using ⟨hkey, hsearch, ht⟩)
  refine Ensures.bind (P := fun es ↦ ∀ e ∈ es, good e) ?_ fun copies hcopies ↦ ?_
  · refine .mapM fun x hx ↦ (every_column right_columns _).bind fun t ht ↦ .ok ?_
    exact drawn_carried hx (by simpa using ht)
  rw [hs.depth_eq, succ_whole, List.append_assoc]
  exact place_sole fun _ ↦ List.forall_mem_append.mpr ⟨hfound, hcopies⟩

theorem antiColumns_drawn (rows : Nat) :
    Ensures (antiColumns sheet s) fun es ↦
      ∀ e ∈ es, Drawn s.Cites sheet rows s.schema.length e := by
  unfold antiColumns
  refine (every_rightKey right_columns).bind fun key hkey ↦ ?_
  refine (every_leftKey left_columns).bind fun search hsearch ↦ ?_
  refine .filterMapM fun x hx ↦ ?_
  dsimp only
  split
  · exact .ok (by simp)
  · refine (every_column right_columns _).bind fun t ht ↦ .ok fun e he ↦ ?_
    obtain rfl := Option.some.inj he
    refine drawn_put (.inl rfl) (lt_of_mem_zipIdx hx) (.mono ?_ fun _ ↦ .inl)
    simpa using ⟨ht, hkey, hsearch⟩

theorem outerJoin_drawn (hsl : Rooted s.left) (hsr : Rooted s.right) :
    Ensures (outerJoin counter s) fun P ↦ ∃ J A first second,
      Occupies J (sheetName .join counter ++ "_left") s.schema (s.left.range.rowEnd + 1) ∧
      Occupies A (sheetName .join counter ++ "_anti") s.schema (s.right.range.rowEnd + 1) ∧
      (∀ e ∈ first, Drawn s.Cites (sheetName .join counter ++ "_left") (s.left.range.rowEnd + 1)
        s.schema.length e) ∧
      (∀ e ∈ second, Drawn s.Cites (sheetName .join counter ++ "_anti") (s.right.range.rowEnd + 1)
        s.schema.length e) ∧
      Ends [Part.opened (sheetName .join counter ++ "_left") (s.left.range.rowEnd + 1) s.schema
          first,
        Part.opened (sheetName .join counter ++ "_anti") (s.right.range.rowEnd + 1) s.schema second]
        (fun ref ↦ Cites J ref ∨ Cites A ref) (sheetName .join counter)
        (s.left.range.rowEnd + 1 + (s.right.range.rowEnd + 1))
        (s.left.range.rowEnd + 1 + (s.right.range.rowEnd + 1)) s.schema P := by
  unfold outerJoin
  simp only [hsl.depth_eq, hsr.depth_eq, succ_whole, Extent.add_whole]
  generalize sheetName .join counter ++ "_left" = leftPart
  generalize sheetName .join counter ++ "_anti" = antiPart
  refine (leftColumns_drawn (s.left.range.rowEnd + 1)).bind fun first hfirst ↦ ?_
  refine (place_ensures _ _ _ _).bind fun J ⟨hJedits, hJ⟩ ↦ ?_
  refine (antiColumns_drawn (s.right.range.rowEnd + 1)).bind fun second hsecond ↦ ?_
  refine (place_ensures _ _ _ _).bind fun A ⟨hAedits, hA⟩ ↦ ?_
  have hparts : J.edits ++ A.edits =
      [Part.opened leftPart (s.left.range.rowEnd + 1) s.schema first,
        Part.opened antiPart (s.right.range.rowEnd + 1) s.schema second].flatMap Part.edits := by
    simp [hJedits, hAedits, Part.edits_opened]
  rw [List.append_assoc (J.edits ++ A.edits), hparts]
  refine (place_ends _ fun hpos ↦ List.forall_mem_singleton.mpr ?_).mono fun P hP ↦
    ⟨J.block, A.block, first, second, hJ, hA, hfirst, hsecond, hP⟩
  refine drawn_put (.inl rfl) hpos (.mono ?_ fun _ ↦ .inl)
  have hJb : J.block.body.Every fun ref ↦ Cites J.block ref ∨ Cites A.block ref :=
    body_of_cites fun _ ↦ .inl
  have hAb : A.block.body.Every fun ref ↦ Cites J.block ref ∨ Cites A.block ref :=
    body_of_cites fun _ ↦ .inr
  simpa using ⟨hJb, hAb⟩

theorem Part.fills_drawn (hl : s.left.sheet ∈ names) (hr : s.right.sheet ∈ names)
    (hsheet : sheet ∈ names) (h : ∀ e ∈ body, Drawn s.Cites sheet rows cols e) :
    ∀ e ∈ (Part.opened sheet rows schema body).body, Part.Fills sheet names e :=
  Part.fills_opened fun e he ↦ (h e he).rests (sheet_of_either hl hr) hsheet

theorem innerJoin_placed (hs : Rooted s.left) (hl : s.left.sheet ∈ known)
    (hr : s.right.sheet ∈ known) :
    Ensures (innerJoin counter s) fun P ↦
      ∃ parts, Placed .join counter known s.schema (s.left.range.rowEnd + 1) P parts := by
  refine (innerJoin_drawn hs).mono fun P ⟨J, first, hJ, hfirst, hends⟩ ↦ ?_
  refine hends.placed (by omega) ⟨?_, trivial⟩ (sheet_of_cites ?_) ?_ ?_
    ⟨"_filtered", by simp [endings], rfl⟩
  · exact Part.fills_drawn (List.mem_cons_of_mem _ hl) (List.mem_cons_of_mem _ hr)
      (by simp [Part.opened]) hfirst
  · simp [Part.opened, hJ.sheet]
  · simp [Part.opened]
  · simpa [Part.opened] using belongs_self .join counter

theorem outerJoin_placed (hsl : Rooted s.left) (hsr : Rooted s.right) (hl : s.left.sheet ∈ known)
    (hr : s.right.sheet ∈ known) :
    Ensures (outerJoin counter s) fun P ↦
      ∃ parts, Placed .join counter known s.schema
        (s.left.range.rowEnd + 1 + (s.right.range.rowEnd + 1)) P parts := by
  refine (outerJoin_drawn hsl hsr).mono
    fun P ⟨J, A, first, second, hJ, hA, hfirst, hsecond, hends⟩ ↦ ?_
  refine hends.placed (by omega) ⟨?_, ?_, trivial⟩ (sheet_of_either ?_ ?_) ?_ ?_ (belongs_self ..)
  · exact Part.fills_drawn (List.mem_cons_of_mem _ hl) (List.mem_cons_of_mem _ hr)
      (by simp [Part.opened]) hfirst
  · exact Part.fills_drawn (by simp [hl]) (by simp [hr]) (by simp [Part.opened]) hsecond
  · simp [Part.opened, hJ.sheet]
  · simp [Part.opened, hA.sheet]
  · simp [Part.opened]
  · simpa [Part.opened] using belongs_outerJoin counter

theorem join_placed (hsl : Rooted s.left) (hsr : Rooted s.right) (hl : s.left.sheet ∈ known)
    (hr : s.right.sheet ∈ known) (k : JoinKind) :
    Ensures (join counter k s) fun P ↦
      ∃ last parts, Placed .join counter known s.schema last P parts ∧ (last == 0) = false := by
  have hgood := fun r ↦ @sheet_of_either known s.left s.right hl hr r
  cases k with
  | left => exact (leftJoin_drawn hsl).mono fun P h ↦ h.placed_sole (by omega) hgood rfl
  | inner => exact (innerJoin_placed hsl hl hr).mono fun P ⟨parts, h⟩ ↦ ⟨_, parts, h, rfl⟩
  | right => exact (rightJoin_drawn hsr).mono fun P h ↦ h.placed_sole (by omega) hgood rfl
  | outer => exact (outerJoin_placed hsl hsr hl hr).mono fun P ⟨parts, h⟩ ↦ ⟨_, parts, h, rfl⟩

end Join

end Gridplan.Layout
