import Gridplan.Plan.Codec
import Gridplan.Json.Reader
import Gridplan.Json.Writer

namespace Gridplan.Plan

def formatVersion : String := "1.0"

def serialize (p : Plan) : Outcome Datum := do
  return .record [("version", .text formatVersion), ("root", ← p.toDatum)]

def valueMessage? : Fault → Option String
  | .arity expected got =>
    some (if got < expected then
        s!"not enough values to unpack (expected {expected}, got {got})"
      else s!"too many values to unpack (expected {expected})")
  | .plan r => some r.message
  | .schema r => some r.message
  | _ => none

def deserialize (d : Datum) : Outcome Plan :=
  match d with
  | .record fs =>
    match fs.lookup "version", fs.lookup "root" with
    | none, _ => .error (.plan .noVersionField)
    | some _, none => .error (.plan .noRootField)
    | some version, some root =>
      if version.same (.text formatVersion) then
        match ofDatum root with
        | .ok p => .ok p
        | .error f =>
          match valueMessage? f with
          | some m => .error (.plan (.rootOperation m))
          | none => .error f
      else .error (.plan (.version version))
  | d => .error (.mismatch (.record d.kindName))

def ofRecord (d : Datum) : Outcome Plan := do
  if ← d.contains (.text "root") then
    match d with
    | .record fs => ofDatum ((fs.lookup "root").getD .null)
    | _ => .error .kind
  else if ← d.contains (.text "type") then ofDatum d
  else .error (.plan .noRoot)

def toJson (l : Json.Layout) (p : Plan) : Outcome String := do return Json.write l (← serialize p)

def ofJson (d : Datum) : Outcome Plan :=
  match d with
  | .text s =>
    match Json.read s with
    | some d => deserialize d
    | none => .error (.plan .invalidDocument)
  | d => .error (.mismatch (.text d.kindName))

end Gridplan.Plan
