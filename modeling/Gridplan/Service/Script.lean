import Gridplan.Service.Call
import Gridplan.Service.Address
import Gridplan.Workbook.Schedule

namespace Gridplan.Service

inductive Action where
  | request (what : String) (call : Call)
  /-- The first sheet is asked for, once. -/
  | fetch
  | pause (seconds : Float)
  | stop (f : Fault)

structure Tab where
  title : String
  rows : Number
  cols : Int

/-- The sheets so far by number, and the numbers of those that edits have names for. -/
structure Tabs where
  tabs : List Tab
  names : List (String × Nat)

namespace Tabs

def find? (t : Tabs) (name : String) : Option (Nat × Tab) :=
  (t.names.lookup name).bind fun i ↦ t.tabs[i]?.map (i, ·)

def renameFirst (t : Tabs) (name : String) (rows : Number) (cols : Int) : Tabs :=
  ⟨t.tabs.set 0 ⟨name, rows, cols⟩, (name, 0) :: t.names⟩

def add (t : Tabs) (name : String) (rows : Number) (cols : Int) : Tabs :=
  ⟨t.tabs ++ [⟨name, rows, cols⟩], (name, t.tabs.length) :: t.names⟩

end Tabs

/-- The calls that create one sheet. The first sheet of a batch is there already and only has to be
asked for. -/
def createSheet (t : Tabs) (first : Bool) (name : String) (rows : Number) (cols : Int) :
    List Action × Tabs :=
  if first then
    match t.tabs with
    | [] => ([], t)
    | old :: _ =>
      let ask := Action.request "get default sheet" .fetch
      let rename := Action.request ("rename default sheet to '" ++ name ++ "'") (.rename old.title name)
      let resize := if old.rows.same rows ∧ old.cols = cols then []
        else [Action.request ("resize sheet '" ++ name ++ "'") (.resize name rows cols)]
      (ask :: rename :: resize, t.renameFirst name rows cols)
  else
    ([.request ("create sheet '" ++ name ++ "'") (.addSheet name rows cols)], t.add name rows cols)

def createSheets (t : Tabs) : List (Edit String × Nat) → List Action × Tabs
  | [] => ([], t)
  | (.create name rows cols, i) :: rest =>
    let (now, t) := createSheet t (i == 0) name rows cols
    let (later, t) := createSheets t rest
    (now ++ later, t)
  | _ :: rest => createSheets t rest

def matrixSize (d : Datum) : Outcome (Nat × Nat) := do
  match d with
  | .null | .bool _ | .int _ | .float _ => .error .kind
  | .record (_ :: _) => .error .label
  | d =>
    let rows ← d.items
    match rows with
    | [] => return (0, 0)
    | r :: _ =>
      match r with
      | .null | .bool _ | .int _ | .float _ => .error .kind
      | r => return (rows.length, (← r.items).length)

/-- Values as an update; there is none for an empty matrix. -/
def valueUpdate : Edit String → Outcome (Option Update)
  | .values _ row col cells =>
    if cells.truthy then do
      let (rows, cols) ← matrixSize cells
      return some ⟨rangeName (row + 1) (col + 1) (row + rows) (col + cols), cells⟩
    else .ok none
  | _ => .ok none

def withEquals (s : String) : String := if s.startsWith "=" then s else "=" ++ s

def formulaUpdate : Edit String → Outcome (Option Update)
  | .formula _ row col body _ =>
    .ok (some ⟨cellName (row + 1) (col + 1), .list [.list [.text (withEquals body)]]⟩)
  | _ => .ok none

structure Writing where
  stage : Stage
  update : Edit String → Outcome (Option Update)
  raw : Bool
  noun : String
  refusal : String → Invalid

def Writing.values : Writing :=
  ⟨.values, valueUpdate, true, "value ranges", .noSheetForValues⟩

def Writing.formulas : Writing :=
  ⟨.formulas, formulaUpdate, false, "formulas", .noSheetForFormula⟩

def writeSheet (w : Writing) (t : Tabs) (sheet : String) (es : List (Edit String)) : List Action :=
  match t.find? sheet with
  | none => [.stop (.invalid (w.refusal sheet))]
  | some (_, tab) =>
    match es.filterMapM w.update with
    | .error f => [.stop f]
    | .ok [] => []
    | .ok updates =>
      [.request ("batch update " ++ toString updates.length ++ " " ++ w.noun ++ " to " ++ tab.title)
        (.batch tab.title updates w.raw)]

def writeSheets (w : Writing) (t : Tabs) (es : List (Edit String)) : List Action :=
  let mine := Schedule.ofStage w.stage es
  (Schedule.sheetsOf mine).flatMap fun s ↦ writeSheet w t s (mine.filter (·.sheet == s))

def nameRequest (id : Nat) (name : String) (r c re ce : Int) : Datum :=
  .record [("addNamedRange", .record [("namedRange", .record [("name", .text name),
    ("range", .record [("sheetId", .int id), ("startRowIndex", .int r),
      ("endRowIndex", .int (re + 1)), ("startColumnIndex", .int c),
      ("endColumnIndex", .int (ce + 1))])])])]

def nameRanges (t : Tabs) (es : List (Edit String)) : List Action :=
  let requests := (Schedule.ofStage .names es).mapM fun e ↦
    match e with
    | .named name sheet r c re ce =>
      match t.find? sheet with
      | none => Except.error (Fault.invalid (.noSheetForName sheet))
      | some (id, _) => .ok (nameRequest id name r c re ce)
    | _ => .error .kind
  match requests with
  | .error f => [.stop f]
  | .ok [] => []
  | .ok rs =>
    [.request ("register " ++ toString rs.length ++ " named range(s)")
      (.nameRanges (.record [("requests", .list rs)]))]

/-- The actions of one batch. A batch that creates sheets first asks for the one that is there,
whatever it creates. -/
def batchActions (t : Tabs) (b : Batch String) : List Action × Tabs :=
  match b.stage with
  | .create =>
    let (actions, t) := createSheets t b.edits.zipIdx
    (.fetch :: actions, t)
  | .values => (writeSheets .values t b.edits, t)
  | .formulas => (writeSheets .formulas t b.edits, t)
  | .names => (nameRanges t b.edits, t)

def batchesActions (delay : Float) (t : Tabs) : List (Batch String) → List Action × Tabs
  | [] => ([], t)
  | b :: bs =>
    let (now, t) := batchActions t b
    let rest := if 0 < delay then [Action.pause delay] else []
    let (later, t) := batchesActions delay t bs
    (now ++ rest ++ later, t)

/-- The whole script: the spreadsheet is created, the batches are carried out, and the main sheet
moves to the front. -/
def script (s : Schedule String) (title : String) (delay : Float) (rows cols : Int) : List Action :=
  let (actions, t) := batchesActions delay ⟨[⟨"Sheet1", .int rows, cols⟩], []⟩ s.batches
  let front := match s.main with
    | none | some "" => []
    | some m =>
      match t.find? m with
      | none => []
      | some (_, tab) => [Action.request ("reorder main sheet '" ++ m ++ "'") (.moveTo tab.title 0)]
  .request ("create spreadsheet '" ++ title ++ "'") (.create title) :: actions ++ front

def maxCells : Int := 10000000

def maxFormulas : Int := 5000000

def cellCount (stage : Stage) : Edit String → Outcome Number
  | .create _ rows cols => if stage = .create then rows.times (.int cols) else .ok (.int 0)
  | .values _ _ _ cells =>
    if stage = .values then do
      let (rows, cols) ← matrixSize cells
      return .int (rows * cols : Nat)
    else .ok (.int 0)
  | _ => .ok (.int 0)

def checkSize (s : Schedule String) : Outcome Unit := do
  let cells ← s.batches.mapM fun b ↦ b.edits.mapM (cellCount b.stage)
  let total ← cells.flatten.foldlM Number.plus (.int 0)
  let formulas : Int := ((s.batches.filter (·.stage = .formulas)).flatMap fun b ↦
    Schedule.ofStage .formulas b.edits).length
  if (Number.int maxCells).compare? total == some .lt then .error (.invalid (.tooManyCells total maxCells))
  else if maxFormulas < formulas then .error (.invalid (.tooManyFormulas formulas maxFormulas))
  else .ok ()

end Gridplan.Service
