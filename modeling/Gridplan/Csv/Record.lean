import Gridplan.Fault

namespace Gridplan.Csv

structure Field where
  text : String
  quoted : Bool := false

inductive Place where
  | start | bare | quoted
  /-- Behind a mark that ends the quotation unless another one follows. -/
  | closing
deriving DecidableEq

structure Reading where
  records : List (List Field) := []
  fields : List Field := []
  chars : List Char := []
  quoted : Bool := false
  place : Place := .start

namespace Reading

def push (c : Char) (r : Reading) : Reading := { r with chars := c :: r.chars, place := .bare }

def endField (r : Reading) : Reading :=
  { r with fields := ⟨String.ofList r.chars.reverse, r.quoted⟩ :: r.fields, chars := [],
           quoted := false, place := .start }

def isBlankRecord : List Field → Bool
  | [f] => !f.quoted && f.text.toList.all fun c ↦ c == ' ' || c == '\t'
  | _ => false

def endRecord (r : Reading) : Reading :=
  let r := r.endField
  if isBlankRecord r.fields then { r with fields := [] }
  else { r with records := r.fields.reverse :: r.records, fields := [] }

def plain (c : Char) (r : Reading) : Reading :=
  if c = ',' then r.endField
  else if c = '\n' || c = '\r' then r.endRecord
  else r.push c

def step (r : Reading) (c : Char) : Reading :=
  match r.place with
  | .quoted => if c = '"' then { r with place := .closing } else { r with chars := c :: r.chars }
  | .closing => if c = '"' then { r with chars := c :: r.chars, place := .quoted } else r.plain c
  | .start => if c = '"' then { r with quoted := true, place := .quoted } else r.plain c
  | .bare => r.plain c

end Reading

def records (s : String) : Outcome (List (List Field)) :=
  let r := s.toList.foldl Reading.step {}
  if r.place = .quoted then .error .value
  else .ok r.endRecord.records.reverse

end Gridplan.Csv
