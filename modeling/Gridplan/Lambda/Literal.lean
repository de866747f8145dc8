import Gridplan.Datum.Show
import Gridplan.Datum.Number

namespace Gridplan.Lambda

inductive Literal where
  | datum (d : Datum)
  | imaginary (x : Float)
  | bytes (bs : List Nat)
  | ellipsis
deriving DecidableEq

namespace Literal

/-- Bytes in quotes; a byte that is no ASCII character stands by its number. -/
def showBytes (bs : List Nat) : String :=
  let mark := Text.quoteMark (bs.map Char.ofNat)
  let body := bs.flatMap fun b ↦
    if b < 128 then Text.quoteChar mark (Char.ofNat b) else Text.byNumber b
  String.ofList ('b' :: mark :: body ++ [mark])

def showWhole (x : Float) : String :=
  let cs := (Decimal.Style.exact.write x).toList
  if ".0".toList.isSuffixOf cs then String.ofList (cs.take (cs.length - 2)) else String.ofList cs

def display : Literal → String
  | .datum d => d.display
  | .imaginary x => showWhole x ++ "j"
  | .bytes bs => showBytes bs
  | .ellipsis => "Ellipsis"

def same : Literal → Literal → Bool
  | .datum a, .datum b => a.same b
  | a, b => a == b

def distinct (ls : List Literal) : List Literal :=
  ls.foldl (fun seen l ↦ if seen.any (same · l) then seen else seen ++ [l]) []

end Literal

end Gridplan.Lambda
