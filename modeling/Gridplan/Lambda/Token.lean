import Gridplan.Lambda.Literal
import Gridplan.Decimal.Scientific
import Gridplan.Text.Identifier

namespace Gridplan.Lambda

structure Quotation where
  raw : Bool
  bytes : Bool
  formatted : Bool
  body : List Char

inductive Token where
  | name (s : String)
  | word (s : String)
  | number (l : Literal)
  | quotation (q : Quotation)
  | mark (s : String)
  | line

namespace Token

def reserved : List String :=
  ["False", "None", "True", "and", "as", "assert", "async", "await", "break", "class", "continue",
    "def", "del", "elif", "else", "except", "finally", "for", "from", "global", "if", "import", "in",
    "is", "lambda", "nonlocal", "not", "or", "pass", "raise", "return", "try", "while", "with",
    "yield"]

def marks : List String :=
  ["**=", "//=", ">>=", "<<=", "...", "!=", "->", "**", "//", "<<", ">>", "<=", ">=", "==", "<>",
    ":=", "+=", "-=", "*=", "/=", "%=", "@=", "&=", "|=", "^=", "(", ")", "[", "]", "\x7b", "\x7d",
    ":", ",", ";", "+", "-", "*", "/", "|", "&", "<", ">", "=", ".", "%", "~", "^", "@"]

def mark? (cs : List Char) : Option (String × List Char) :=
  marks.findSome? fun m ↦
    if m.toList.isPrefixOf cs then some (m, cs.drop m.length) else none

/-- Whether a character can stand in a name, as far as it is ASCII. -/
def inName (c : Char) : Bool := c.isAlphanum || c == '_' || 128 ≤ c.toNat

def isName : List Char → Bool
  | [] => false
  | c :: cs => Text.isIdentifierStart c && cs.all Text.isIdentifierRest

section Numbers

/-- A run of digits at the start, with single underscores before digits, and what follows it. -/
def digitRun (ok : Char → Bool) : List Char → Option (List Char × List Char)
  | [] => some ([], [])
  | ['_'] => none
  | '_' :: c :: cs =>
    if ok c then (digitRun ok cs).map fun (ds, r) ↦ (c :: ds, r) else none
  | c :: cs => if ok c then (digitRun ok cs).map fun (ds, r) ↦ (c :: ds, r) else some ([], c :: cs)

def digitOf (c : Char) : Nat :=
  if c.isDigit then c.toNat - 48 else c.toLower.toNat - 87

def isDigitOf (base : Nat) (c : Char) : Bool :=
  (c.isDigit || ('a' ≤ c.toLower && c.toLower ≤ 'f')) && digitOf c < base

def valueOf (base : Nat) (ds : List Char) : Nat := ds.foldl (fun n c ↦ n * base + digitOf c) 0

/-- Whether a number can end before these characters: no name may follow directly, except for some
reserved words. -/
def endsNumber (cs : List Char) : Bool :=
  let free (cs : List Char) : Bool := !(cs.head?.map inName).getD false
  match cs with
  | 'a' :: 'n' :: 'd' :: r => free r
  | 'e' :: 'l' :: 's' :: 'e' :: r => free r
  | 'f' :: 'o' :: 'r' :: r => free r
  | 'i' :: 'f' :: _ | 'i' :: 'n' :: _ | 'i' :: 's' :: _ => true
  | 'o' :: 'r' :: r => free r
  | 'n' :: 'o' :: 't' :: r => free r
  | cs => free cs

def exponent? : List Char → Option (Option Int × List Char)
  | c :: cs =>
    if c == 'e' || c == 'E' then
      let signed := match cs with
        | '+' :: r => some (1, r)
        | '-' :: r => some (-1, r)
        | _ => none
      match signed, cs with
      | some (sign, d :: r), _ =>
        if d.isDigit then (digitRun Char.isDigit (d :: r)).map fun (ds, r) ↦
          (some (sign * (valueOf 10 ds : Int)), r)
        else none
      | some _, _ => none
      | none, d :: _ =>
        if d.isDigit then (digitRun Char.isDigit cs).map fun (ds, r) ↦
          (some (valueOf 10 ds : Int), r)
        else some (none, c :: cs)
      | none, [] => some (none, [c])
    else some (none, c :: cs)
  | [] => some (none, [])

def based? (base : Nat) (cs : List Char) : Option (Literal × List Char) := do
  let (ds, r) ← digitRun (isDigitOf base) cs
  if ds.isEmpty || (r.head?.map Char.isDigit).getD false || !endsNumber r then none
  else some (.datum (.int (valueOf base ds)), r)

/-- A number in base ten. A whole number other than zero does not start with a zero. -/
def decimal? (cs : List Char) : Option (Literal × List Char) := do
  let (whole, r) ← digitRun Char.isDigit cs
  let (point, part, r) ← match r with
    | '.' :: d :: r =>
      if d.isDigit then (digitRun Char.isDigit (d :: r)).map fun (ds, r) ↦ (true, ds, r)
      else some (true, [], d :: r)
    | ['.'] => some (true, [], [])
    | r => some (false, [], r)
  let (e, r) ← exponent? r
  let value := Decimal.scientific (valueOf 10 (whole ++ part)) (e.getD 0 - part.length)
  match r with
  | c :: r' =>
    if c == 'j' || c == 'J' then
      if endsNumber r' then some (.imaginary value, r') else none
    else finish whole point e value r
  | [] => finish whole point e value r
where
  finish (whole : List Char) (point : Bool) (e : Option Int) (value : Float) (r : List Char) :
      Option (Literal × List Char) :=
    if !endsNumber r then none
    else if point || e.isSome then some (.datum (.float value), r)
    else if whole.head? == some '0' && whole.any (· != '0') then none
    else some (.datum (.int (valueOf 10 whole)), r)

def number? : List Char → Option (Literal × List Char)
  | '0' :: c :: cs =>
    if c == 'x' || c == 'X' then based? 16 cs
    else if c == 'o' || c == 'O' then based? 8 cs
    else if c == 'b' || c == 'B' then based? 2 cs
    else decimal? ('0' :: c :: cs)
  | cs => decimal? cs

end Numbers

section Quotations

def untilMark (mark : Char) (triple : Bool) : List Char → Option (List Char × List Char)
  | [] => none
  | ['\\'] => none
  | '\\' :: c :: cs => (untilMark mark triple cs).map fun (b, r) ↦ ('\\' :: c :: b, r)
  | c :: cs =>
    if triple then
      if [mark, mark, mark].isPrefixOf (c :: cs) then some ([], cs.drop 2)
      else (untilMark mark triple cs).map fun (b, r) ↦ (c :: b, r)
    else if c == mark then some ([], cs)
    else if c == '\n' then none
    else (untilMark mark triple cs).map fun (b, r) ↦ (c :: b, r)

def quotationLetters (letters : List Char) : Option Quotation :=
  match String.ofList (letters.map Char.toLower) with
  | "" | "u" => some ⟨false, false, false, []⟩
  | "r" => some ⟨true, false, false, []⟩
  | "b" => some ⟨false, true, false, []⟩
  | "br" | "rb" => some ⟨true, true, false, []⟩
  | "f" => some ⟨false, false, true, []⟩
  | "fr" | "rf" => some ⟨true, false, true, []⟩
  | _ => none

def quotation? (letters : List Char) : List Char → Option (Quotation × List Char)
  | c :: cs => do
    let q ← quotationLetters letters
    let triple := [c, c].isPrefixOf cs
    let (body, r) ← untilMark c triple (if triple then cs.drop 2 else cs)
    some (⟨q.raw, q.bytes, q.formatted, body⟩, r)
  | [] => none

end Quotations

def isQuote (c : Char) : Bool := c == '\'' || c == '"'

def next? : List Char → Option (Token × List Char)
  | [] => none
  | c :: cs =>
    if isQuote c then (quotation? [] (c :: cs)).map fun (q, r) ↦ (.quotation q, r)
    else if c.isDigit || (c == '.' && (cs.head?.map Char.isDigit).getD false) then
      (number? (c :: cs)).map fun (l, r) ↦ (.number l, r)
    else if inName c then
      let w := (c :: cs).takeWhile inName
      let r := (c :: cs).dropWhile inName
      if (r.head?.map isQuote).getD false && (quotationLetters w).isSome then
        (quotation? w r).map fun (q, r) ↦ (.quotation q, r)
      else if isName w then
        let s := String.ofList w
        some (if s ∈ reserved then .word s else .name s, r)
      else none
    else (mark? (c :: cs)).map fun (m, r) ↦ (.mark m, r)

def opens (m : String) : Bool := m == "(" || m == "[" || m == "\x7b"

def closes (m : String) : Bool := m == ")" || m == "]" || m == "\x7d"

def isSpace (c : Char) : Bool := c == ' ' || c == '\t' || c == '\x0c'

/-- Whether blanks at the start of a line indent it. A form feed starts the line anew. -/
def indents (blanks : List Char) : Bool := (blanks.getLast?.map (· != '\x0c')).getD false

/-- The words of a text between so many open brackets. The first number bounds the steps. -/
def scan : Nat → Nat → List Char → Option (List Token)
  | 0, _, _ => none
  | _, _, [] => some []
  | n + 1, depth, c :: cs =>
    if isSpace c then scan n depth cs
    else if c == '#' then scan n depth (cs.dropWhile (· != '\n'))
    else if c == '\n' then
      if depth ≠ 0 then scan n depth cs
      else if cs.all isSpace && indents cs then none
      else (scan n depth cs).map (.line :: ·)
    else if c == '\\' then
      match cs with
      | '\n' :: d :: r => scan n depth (d :: r)
      | _ => none
    else do
      let (t, r) ← next? (c :: cs)
      let depth ← match t with
        | .mark m =>
          if opens m then some (depth + 1)
          else if closes m then (if depth = 0 then none else some (depth - 1))
          else some depth
        | _ => some depth
      return t :: (← scan n depth r)

def evenLines : List Char → List Char
  | '\r' :: '\n' :: cs => '\n' :: evenLines cs
  | '\r' :: cs => '\n' :: evenLines cs
  | c :: cs => c :: evenLines cs
  | [] => []

/-- A text from its first line that is not empty; that line is not indented. The number bounds the
lines. -/
def firstLine : Nat → List Char → Option (List Char)
  | 0, _ => none
  | n + 1, cs =>
    let blanks := cs.takeWhile isSpace
    match cs.drop blanks.length with
    | [] => some []
    | '\n' :: r => firstLine n r
    | '#' :: r => firstLine n ((r.dropWhile (· != '\n')).drop 1)
    | r => if indents blanks then none else some r

def ofText (s : String) : Option (List Token) := do
  let cs := evenLines s.toList
  scan (cs.length + 1) 0 (← firstLine (cs.length + 1) cs)

end Token

namespace Quotation

def isOctal (c : Char) : Bool := '0' ≤ c && c ≤ '7'

def hexValue? (count : Nat) (cs : List Char) : Option Nat :=
  let ds := cs.take count
  if ds.length = count && ds.all (Token.isDigitOf 16) then some (Token.valueOf 16 ds) else none

/-- The code points that a body denotes, with its escapes. The number bounds the steps. -/
def decode (bytes : Bool) : Nat → List Char → Option (List Nat)
  | 0, _ => none
  | _, [] => some []
  | n + 1, '\\' :: c :: cs =>
    let one (k : Nat) := (decode bytes n cs).map (k :: ·)
    let numbered (count : Nat) := do
      let k ← hexValue? count cs
      if k ≤ 0x10ffff then (decode bytes n (cs.drop count)).map (k :: ·) else none
    match c with
    | '\n' => decode bytes n cs
    | '\\' | '\'' | '"' => one c.toNat
    | 'a' => one 7
    | 'b' => one 8
    | 'f' => one 12
    | 'n' => one 10
    | 'r' => one 13
    | 't' => one 9
    | 'v' => one 11
    | 'x' => numbered 2
    | c =>
      if isOctal c then
        let more := (cs.take 2).takeWhile isOctal
        let k := Token.valueOf 8 (c :: more)
        (decode bytes n (cs.drop more.length)).map ((if bytes then k % 256 else k) :: ·)
      else if c == 'u' && !bytes then numbered 4
      else if c == 'U' && !bytes then numbered 8
      else if c == 'N' && !bytes then none
      else (decode bytes n cs).map fun ks ↦ 92 :: c.toNat :: ks
  | n + 1, c :: cs => (decode bytes n cs).map (c.toNat :: ·)

def codes? (q : Quotation) : Option (List Nat) :=
  if q.bytes && q.body.any fun c ↦ 128 ≤ c.toNat then none
  else if q.raw then some (q.body.map Char.toNat)
  else decode q.bytes (q.body.length + 1) q.body

end Quotation

end Gridplan.Lambda
