import Gridplan.Datum.Basic
import Gridplan.Decimal.Style
import Gridplan.Text.Quoted

namespace Gridplan.Datum

mutual

def quoted : Datum → String
  | .null => "None"
  | .bool true => "True"
  | .bool false => "False"
  | .int n => toString n
  | .float x => Decimal.Style.exact.write x
  | .text s => Text.quote s
  | .list xs => "[" ++ ", ".intercalate (quotedList xs) ++ "]"
  | .tuple [x] => "(" ++ quoted x ++ ",)"
  | .tuple xs => "(" ++ ", ".intercalate (quotedList xs) ++ ")"
  | .record fs => "\x7b" ++ ", ".intercalate (quotedFields fs) ++ "\x7d"

def quotedList : List Datum → List String
  | [] => []
  | x :: xs => quoted x :: quotedList xs

def quotedFields : List (String × Datum) → List String
  | [] => []
  | (k, v) :: fs => (Text.quote k ++ ": " ++ quoted v) :: quotedFields fs

end

def display : Datum → String
  | .text s => s
  | d => d.quoted

def quotedNames (xs : List String) : String := (ofTexts xs).quoted

end Gridplan.Datum
