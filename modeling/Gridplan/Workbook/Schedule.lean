import Gridplan.Workbook.Edit

namespace Gridplan

inductive Stage where
  | create | values | formulas | names
deriving DecidableEq, Inhabited

namespace Stage

def tag : Stage → String
  | .create => "create_sheets"
  | .values => "write_source_data"
  | .formulas => "write_formulas"
  | .names => "register_named_ranges"

def title : Stage → String
  | .create => "Create Sheets"
  | .values => "Write Source Data"
  | .formulas => "Write Formulas"
  | .names => "Register Named Ranges"

def all : List Stage := [.create, .values, .formulas, .names]

def ofTag? (s : String) : Option Stage := all.find? (·.tag == s)

end Stage

namespace Edit

variable {φ : Type}

def stage : Edit φ → Stage
  | .create .. => .create
  | .values .. => .values
  | .formula .. => .formulas
  | .named .. => .names

def needs? : Edit φ → Option String
  | .formula sheet _ _ _ (some other) => if other = "" ∨ other = sheet then none else some other
  | _ => none

end Edit

def distinct {α : Type} [BEq α] (xs : List α) : List α :=
  xs.foldl (fun seen x ↦ if seen.contains x then seen else seen ++ [x]) []

structure Batch (φ : Type) where
  stage : Stage
  edits : List (Edit φ)
  targets : List String

/-- Batches in the order in which they are carried out, and the sheet with the final result. -/
structure Schedule (φ : Type) where
  batches : List (Batch φ)
  main : Option String

namespace Schedule

variable {φ : Type}

def edits (s : Schedule φ) : List (Edit φ) := s.batches.flatMap (·.edits)

/-- The sheets whose formulas need others, in the order of first appearance. -/
def sheetsOf (es : List (Edit φ)) : List String := distinct (es.map (·.sheet))

def needsOf (es : List (Edit φ)) (sheet : String) : List String :=
  distinct ((es.filter (·.sheet == sheet)).filterMap (·.needs?))

def firstName (a b : String) : String := if b < a then b else a

def least : List String → Option String
  | [] => none
  | x :: xs => some (xs.foldl firstName x)

/-- A sheet that waits for others: those it needs, and how many of them are not taken yet. -/
structure Waiting where
  sheet : String
  needs : List String
  missing : Nat

namespace Waiting

def start (needs : String → List String) (sheet : String) : Waiting :=
  ⟨sheet, needs sheet, (needs sheet).length⟩

def after (w : Waiting) (taken : String) : Waiting :=
  if w.needs.contains taken then { w with missing := w.missing - 1 } else w

end Waiting

/-- Takes the least sheet of a queue, again and again. A sheet joins the queue when the last of
those it needs is taken. -/
def drain : Nat → List String → List Waiting → List String
  | 0, _, _ => []
  | n + 1, queue, waiting =>
    match least queue with
    | none => []
    | some s =>
      let waiting := waiting.map (·.after s)
      let freed := waiting.filter fun w ↦ w.needs.contains s && w.missing == 0
      s :: drain n (queue.erase s ++ freed.map (·.sheet)) waiting

/-- The sheets of formulas with those they need before them. Each is taken at most once. -/
def sheetOrder (es : List (Edit φ)) : List String :=
  let waiting := (sheetsOf es).map (Waiting.start (needsOf es))
  drain waiting.length ((waiting.filter (·.missing == 0)).map (·.sheet)) waiting

/-- Formulas sheet by sheet. A sheet whose needs are never met is left out. -/
def sortFormulas (es : List (Edit φ)) : List (Edit φ) :=
  (sheetOrder es).flatMap fun s ↦ es.filter (·.sheet == s)

def ofStage (s : Stage) (es : List (Edit φ)) : List (Edit φ) := es.filter (·.stage = s)

def repeated : List String → List String
  | [] => []
  | x :: xs => if xs.contains x then x :: repeated xs else repeated xs

def checkSheets (created : List String) (e : Edit φ) : Outcome Unit :=
  match e with
  | .create .. => .ok ()
  | .values sheet .. =>
    if created.contains sheet then .ok () else .error (.invalid (.noSheet "SetValues" sheet))
  | .formula sheet _ _ _ needs =>
    if created.contains sheet then
      match needs with
      | none | some "" => .ok ()
      | some other =>
        if created.contains other then .ok () else .error (.invalid (.noNeededSheet sheet other))
    else .error (.invalid (.noSheet "SetFormula" sheet))
  | .named _ sheet .. =>
    if created.contains sheet then .ok () else .error (.invalid (.noSheet "NamedRange" sheet))

def check (es : List (Edit φ)) : Outcome Unit := do
  let created := (ofStage .create es).map (·.sheet)
  match repeated created with
  | [] => pure ()
  | again => .error (.invalid (.repeatedSheets (distinct again)))
  for s in [Stage.values, .formulas, .names] do
    (ofStage s es).forM (checkSheets created)

def batch? (s : Stage) (es : List (Edit φ)) : Option (Batch φ) :=
  let mine := ofStage s es
  if mine.isEmpty then none
  else
    let ordered := if s = .formulas then sortFormulas mine else mine
    some ⟨s, ordered, sheetsOf ordered⟩

def ofEdits (es : List (Edit φ)) (main : Option String) : Outcome (Schedule φ) := do
  check es
  return ⟨Stage.all.filterMap (batch? · es), main⟩

end Schedule

end Gridplan
