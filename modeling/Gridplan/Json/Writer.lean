import Gridplan.Datum.Basic
import Gridplan.Decimal.Style
import Gridplan.Text.Quoted

namespace Gridplan.Json

structure Layout where
  indent : Option Nat := none
  sorted : Bool := false

def escapeChar (c : Char) : List Char :=
  let n := c.toNat
  if c == '"' || c == '\\' then ['\\', c]
  else if c == '\n' then ['\\', 'n']
  else if c == '\r' then ['\\', 'r']
  else if c == '\t' then ['\\', 't']
  else if n == 12 then ['\\', 'f']
  else if n == 8 then ['\\', 'b']
  else if 32 ≤ n && n < 127 then [c]
  else if n < 0x10000 then '\\' :: 'u' :: Text.hex 4 n
  else
    let m := n - 0x10000
    '\\' :: 'u' :: Text.hex 4 (0xD800 + m / 0x400) ++ '\\' :: 'u' :: Text.hex 4 (0xDC00 + m % 0x400)

def escape (s : String) : String :=
  String.ofList ('"' :: s.toList.flatMap escapeChar ++ ['"'])

def Layout.newline (l : Layout) (depth : Nat) : String :=
  match l.indent with
  | none => ""
  | some n => "\n" ++ String.ofList (List.replicate (n * depth) ' ')

def Layout.comma (l : Layout) (depth : Nat) : String :=
  match l.indent with
  | none => ", "
  | some _ => "," ++ l.newline depth

def Layout.wrap (l : Layout) (depth : Nat) (opening closing : String) (xs : List String) : String :=
  if xs.isEmpty then opening ++ closing
  else opening ++ l.newline (depth + 1) ++ (l.comma (depth + 1)).intercalate xs ++
    l.newline depth ++ closing

def Layout.order (l : Layout) (ms : List (String × String)) : List (String × String) :=
  if l.sorted then ms.mergeSort fun a b ↦ a.1 ≤ b.1 else ms

mutual

def writeAt (l : Layout) (depth : Nat) : Datum → String
  | .null => "null"
  | .bool true => "true"
  | .bool false => "false"
  | .int n => toString n
  | .float x => Decimal.Style.document.write x
  | .text s => escape s
  | .list xs => l.wrap depth "[" "]" (writeItems l (depth + 1) xs)
  | .tuple xs => l.wrap depth "[" "]" (writeItems l (depth + 1) xs)
  | .record fs =>
    l.wrap depth "\x7b" "\x7d"
      ((l.order (writeMembers l (depth + 1) fs)).map fun (k, v) ↦ escape k ++ ": " ++ v)

def writeItems (l : Layout) (depth : Nat) : List Datum → List String
  | [] => []
  | x :: xs => writeAt l depth x :: writeItems l depth xs

def writeMembers (l : Layout) (depth : Nat) : List (String × Datum) → List (String × String)
  | [] => []
  | (k, v) :: fs => (k, writeAt l depth v) :: writeMembers l depth fs

end

def write (l : Layout) (d : Datum) : String := writeAt l 0 d

end Gridplan.Json
