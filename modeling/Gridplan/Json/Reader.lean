import Gridplan.Datum.Basic
import Gridplan.Decimal.Scientific

namespace Gridplan.Json

def skip (cs : List Char) : List Char :=
  cs.dropWhile fun c ↦ c == ' ' || c == '\t' || c == '\n' || c == '\r'

def hexValue? (c : Char) : Option Nat :=
  if c.isDigit then some (c.toNat - 48)
  else if 'a' ≤ c ∧ c ≤ 'f' then some (c.toNat - 87)
  else if 'A' ≤ c ∧ c ≤ 'F' then some (c.toNat - 55)
  else none

def unit? (a b c d : Char) : Option Nat := do
  return (((← hexValue? a) * 16 + (← hexValue? b)) * 16 + (← hexValue? c)) * 16 + (← hexValue? d)

/-- The character of a pair of code units, or of the first alone when they make no pair. -/
def joinUnits (hi lo : Nat) : Option Char :=
  if 0xD800 ≤ hi ∧ hi < 0xDC00 ∧ 0xDC00 ≤ lo ∧ lo < 0xE000 then
    some (Char.ofNat (0x10000 + (hi - 0xD800) * 0x400 + (lo - 0xDC00)))
  else none

/-- The character of a code unit of its own; half a pair is not a character. -/
def loneUnit (n : Nat) : Char :=
  if 0xD800 ≤ n ∧ n < 0xE000 then Char.ofNat 0xFFFD else Char.ofNat n

def escape? : Char → Option Char
  | '"' => some '"'
  | '\\' => some '\\'
  | '/' => some '/'
  | 'b' => some (Char.ofNat 8)
  | 'f' => some (Char.ofNat 12)
  | 'n' => some '\n'
  | 'r' => some '\r'
  | 't' => some '\t'
  | _ => none

def textBody : List Char → Option (List Char × List Char)
  | [] => none
  | '"' :: rest => some ([], rest)
  | '\\' :: 'u' :: a :: b :: c :: d :: '\\' :: 'u' :: e :: f :: g :: h :: rest => do
    let n ← unit? a b c d
    match (unit? e f g h).bind (joinUnits n) with
    | some ch => (textBody rest).map fun (s, r) ↦ (ch :: s, r)
    | none => (textBody ('\\' :: 'u' :: e :: f :: g :: h :: rest)).map fun (s, r) ↦ (loneUnit n :: s, r)
  | '\\' :: 'u' :: a :: b :: c :: d :: rest => do
    let n ← unit? a b c d
    (textBody rest).map fun (s, r) ↦ (loneUnit n :: s, r)
  | '\\' :: c :: rest => do
    let ch ← escape? c
    (textBody rest).map fun (s, r) ↦ (ch :: s, r)
  | c :: rest =>
    if c.toNat < 32 || c == '\\' then none
    else (textBody rest).map fun (s, r) ↦ (c :: s, r)

def digitsValue (cs : List Char) : Nat := cs.foldl (fun n c ↦ n * 10 + (c.toNat - 48)) 0

def exponent? : List Char → Option (Int × List Char)
  | c :: rest =>
    if c == 'e' || c == 'E' then
      let (sign, rest) := match rest with
        | '-' :: r => ((-1 : Int), r)
        | '+' :: r => (1, r)
        | r => (1, r)
      let ds := rest.takeWhile Char.isDigit
      if ds.isEmpty then none else some (sign * digitsValue ds, rest.dropWhile Char.isDigit)
    else none
  | [] => none

def fraction? : List Char → Option (List Char × List Char)
  | '.' :: rest =>
    let ds := rest.takeWhile Char.isDigit
    if ds.isEmpty then none else some (ds, rest.dropWhile Char.isDigit)
  | _ => none

/-- A number without its sign: an integer unless it has a fraction or an exponent. -/
def magnitude (negative : Bool) (cs : List Char) : Option (Datum × List Char) :=
  let ds := match cs with
    | '0' :: _ => ['0']
    | _ => cs.takeWhile Char.isDigit
  let rest := cs.drop ds.length
  let sign (x : Float) : Float := if negative then -x else x
  if ds.isEmpty then none
  else
    match fraction? rest, exponent? rest with
    | none, none =>
      let n : Int := digitsValue ds
      some (.int (if negative then -n else n), rest)
    | none, some (e, rest) => some (.float (sign (Decimal.scientific (digitsValue ds) e)), rest)
    | some (fs, rest), _ =>
      let m := digitsValue (ds ++ fs)
      match exponent? rest with
      | none => some (.float (sign (Decimal.scientific m (-fs.length))), rest)
      | some (e, rest) => some (.float (sign (Decimal.scientific m (e - fs.length))), rest)

def scalar : List Char → Option (Datum × List Char)
  | 'n' :: 'u' :: 'l' :: 'l' :: rest => some (.null, rest)
  | 't' :: 'r' :: 'u' :: 'e' :: rest => some (.bool true, rest)
  | 'f' :: 'a' :: 'l' :: 's' :: 'e' :: rest => some (.bool false, rest)
  | 'N' :: 'a' :: 'N' :: rest => some (.float (0.0 / 0.0), rest)
  | 'I' :: 'n' :: 'f' :: 'i' :: 'n' :: 'i' :: 't' :: 'y' :: rest => some (.float (1.0 / 0.0), rest)
  | '-' :: 'I' :: 'n' :: 'f' :: 'i' :: 'n' :: 'i' :: 't' :: 'y' :: rest =>
    some (.float (-1.0 / 0.0), rest)
  | '"' :: rest => (textBody rest).map fun (s, r) ↦ (.text (String.ofList s), r)
  | '-' :: rest => magnitude true rest
  | rest => magnitude false rest

/-- The fields after a key is entered: in place when the key is known, else at the end. -/
def enter (fs : List (String × Datum)) (k : String) (v : Datum) : List (String × Datum) :=
  if fs.any (·.1 == k) then fs.map fun f ↦ if f.1 == k then (k, v) else f else fs ++ [(k, v)]

mutual

def value : Nat → List Char → Option (Datum × List Char)
  | 0, _ => none
  | fuel + 1, cs =>
    match cs with
    | '[' :: rest =>
      match skip rest with
      | ']' :: rest => some (.list [], rest)
      | rest => (items fuel rest).map fun (xs, r) ↦ (.list xs, r)
    | '\x7b' :: rest =>
      match skip rest with
      | '\x7d' :: rest => some (.record [], rest)
      | rest => (members fuel [] rest).map fun (fs, r) ↦ (.record fs, r)
    | cs => scalar cs

def items : Nat → List Char → Option (List Datum × List Char)
  | 0, _ => none
  | fuel + 1, cs => do
    let (v, rest) ← value fuel cs
    match skip rest with
    | ',' :: rest => (items fuel (skip rest)).map fun (vs, r) ↦ (v :: vs, r)
    | ']' :: rest => some ([v], rest)
    | _ => none

def members : Nat → List (String × Datum) → List Char → Option (List (String × Datum) × List Char)
  | 0, _, _ => none
  | fuel + 1, done, cs =>
    match cs with
    | '"' :: rest => do
      let (k, rest) ← textBody rest
      match skip rest with
      | ':' :: rest =>
        let (v, rest) ← value fuel (skip rest)
        let done := enter done (String.ofList k) v
        match skip rest with
        | ',' :: rest => members fuel done (skip rest)
        | '\x7d' :: rest => some (done, rest)
        | _ => none
      | _ => none
    | _ => none

end

def read (s : String) : Option Datum :=
  let cs := skip s.toList
  match value (2 * cs.length + 2) cs with
  | some (v, rest) => if (skip rest).isEmpty then some v else none
  | none => none

end Gridplan.Json
