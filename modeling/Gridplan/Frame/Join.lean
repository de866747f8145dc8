import Gridplan.Frame.Group

namespace Gridplan.Frame

def sameKey : List Datum → List Datum → Bool
  | [], [] => true
  | a :: as, b :: bs => ((a.isMissing && b.isMissing) || a.same b) && sameKey as bs
  | _, _ => false

/-- A row of a join: the rows of both sides that it is made of. -/
abbrev Pairing := Option Nat × Option Nat

def partners (keys : List (List Datum)) (key : List Datum) : List Nat :=
  (keys.zipIdx.filter fun (k, _) ↦ sameKey k key).map (·.2)

/-- Every left row with its partners, or alone if `alone` says so. -/
def pairLeft (alone : Bool) (left right : List (List Datum)) : List Pairing :=
  left.zipIdx.flatMap fun (key, i) ↦
    match partners right key with
    | [] => if alone then [(some i, none)] else []
    | js => js.map fun j ↦ (some i, some j)

def pairRight (left right : List (List Datum)) : List Pairing :=
  right.zipIdx.flatMap fun (key, j) ↦
    match partners left key with
    | [] => [(none, some j)]
    | is => is.map fun i ↦ (some i, some j)

def pairOuter (left right : List (List Datum)) : List Pairing :=
  let keys := (left ++ right).foldl (fun seen k ↦ if seen.any (sameKey · k) then seen else seen ++ [k]) []
  let sorted := keys.mergeSort fun a b ↦ keyOrder (a.map fun _ ↦ .asc) a b != .gt
  sorted.flatMap fun key ↦
    match partners left key, partners right key with
    | is, [] => is.map fun i ↦ (some i, none)
    | [], js => js.map fun j ↦ (none, some j)
    | is, js => is.flatMap fun i ↦ js.map fun j ↦ (some i, some j)

def pairings (kind : JoinKind) (left right : List (List Datum)) : List Pairing :=
  match kind with
  | .inner => pairLeft false left right
  | .left => pairLeft true left right
  | .right => pairRight left right
  | .outer => pairOuter left right

def isTextual (cells : List Datum) : Bool :=
  cells.any (·.text?.isSome) || cells.any (· == .null)

/-- Whether keys of two columns can be compared: text is not joined with numbers. -/
def joinable (a b : Column) : Bool :=
  match a, b with
  | .mixed xs, .ints _ | .mixed xs, .floats _ | .ints _, .mixed xs | .floats _, .mixed xs =>
    a.length = 0 || b.length = 0 || !isTextual xs
  | _, _ => true

def suffixed (suffixes : Option String × Option String) (left right : List Label) :
    Outcome (List Label × List Label) :=
  let shared := left.filter (·.isIn right)
  if shared.isEmpty then .ok (left, right)
  else if suffixes.1.getD "" == "" && suffixes.2.getD "" == "" then .error .value
  else
    let rename (s : Option String) (l : Label) : Label :=
      match s with
      | some s => if l.isIn shared then .text (l.display ++ s) else l
      | none => l
    let clash (old new : List Label) : Bool :=
      (List.range new.length).any fun i ↦
        match new[i]?, old[i]? with
        | some l, some o => l.isIn (new.take i) && !o.isIn (old.take i)
        | _, _ => false
    let ls := left.map (rename suffixes.1)
    let rs := right.map (rename suffixes.2)
    if clash left ls || clash right rs then .error .value else .ok (ls, rs)

def sharedKey (pairs : List Pairing) (a b : Column) : Column :=
  if pairs.all (·.1.isSome) then a.pickOr (pairs.map (·.1))
  else if pairs.all (·.1.isNone) then b.pickOr (pairs.map (·.2))
  else
    let left := a.toList
    let right := b.toList
    let cells := pairs.map fun p ↦
      match p with
      | (some i, _) => (left[i]?).getD .null
      | (none, some j) => (right[j]?).getD .null
      | (none, none) => .null
    let kind := if pairs.all (·.2.isNone) then a.kind else a.kind.join b.kind
    match kind with
    | .mixed => .mixed cells
    | _ => if cells.isEmpty then a else Column.ofList cells

/-- The join of two frames on pairs of key columns. Keys of one name become one column. -/
def join (leftOn rightOn : List Label) (kind : JoinKind) (suffixes : Option String × Option String)
    (left right : Frame) : Outcome Frame := do
  if leftOn.length != rightOn.length then .error .value
  else
    let on := leftOn.zip rightOn
    let keys ← on.mapM fun (l, r) ↦ do return (← left.column l, ← right.column r)
    if !keys.all fun (a, b) ↦ joinable a b then .error .value
    else
      let pairs := pairings kind (keyRows left.height (keys.map (·.1)))
        (keyRows right.height (keys.map (·.2)))
      let shared := on.filter fun (l, r) ↦ l.same r
      let rest := right.columns.filter fun (l, _) ↦ !shared.any (·.1.same l)
      let (ls, rs) ← suffixed suffixes left.labels (rest.map (·.1))
      let leftColumns := (ls.zip left.columns).map fun (name, l, c) ↦
        match shared.find? (·.1.same l) with
        | some (_, r) => (name, sharedKey pairs c ((right.column? r).getD c))
        | none => (name, c.pickOr (pairs.map (·.1)))
      let rightColumns := (rs.zip rest).map fun (name, _, c) ↦ (name, c.pickOr (pairs.map (·.2)))
      return ⟨leftColumns ++ rightColumns, numbered pairs.length⟩

end Gridplan.Frame
