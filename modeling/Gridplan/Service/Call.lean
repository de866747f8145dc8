import Gridplan.Datum.Number
import Gridplan.Datum.Show

namespace Gridplan.Service

structure Update where
  range : String
  values : Datum

/-- A call to the service. `raw` calls write values as they are; others are read as if typed in. -/
inductive Call where
  | create (title : String)
  /-- The first sheet of the spreadsheet is asked for. -/
  | fetch
  | rename (old new : String)
  | resize (title : String) (rows : Number) (cols : Int)
  | addSheet (title : String) (rows : Number) (cols : Int)
  | batch (title : String) (updates : List Update) (raw : Bool)
  | write (title : String) (update : Update) (raw : Bool)
  | nameRanges (body : Datum)
  | moveTo (title : String) (index : Nat)

namespace Call

def name : Call → String
  | .create _ => "create"
  | .fetch => "sheet1"
  | .rename .. => "update_title"
  | .resize .. => "resize"
  | .addSheet .. => "add_worksheet"
  | .batch .. => "batch_update"
  | .write .. => "update"
  | .nameRanges _ => "named_ranges"
  | .moveTo .. => "update_index"

/-- What failed, for the calls that say so themselves. -/
def subject? : Call → Option String
  | .create title => some ("Failed to create spreadsheet '" ++ title ++ "'")
  | .addSheet title _ _ => some ("Failed to add worksheet '" ++ title ++ "' to spreadsheet")
  | .batch _ updates true =>
    some ("Failed to batch update " ++ toString updates.length ++ " value ranges")
  | .batch _ updates false =>
    some ("Failed to batch update " ++ toString updates.length ++ " formulas")
  | .write _ update true => some ("Failed to write values to range '" ++ update.range ++ "'")
  | .write _ update false => some ("Failed to write formula to cell '" ++ update.range ++ "'")
  | _ => none

def failure (c : Call) (n : Nat) : String :=
  let text := c.name ++ " failure " ++ toString n
  match c.subject? with
  | some s => s ++ ": " ++ text
  | none => text

end Call

end Gridplan.Service
