import Gridplan.Lambda.Token

namespace Gridplan.Lambda.Quotation

def escapeOk (c : Char) (rest : List Char) : Bool :=
  match c with
  | 'x' => (hexValue? 2 rest).isSome
  | 'u' => (hexValue? 4 rest).isSome
  | 'U' => (hexValue? 8 rest).any (· ≤ 0x10ffff)
  | 'N' => false
  | _ => true

def closing? : Char → Option Char
  | '(' => some ')'
  | '[' => some ']'
  | '\x7b' => some '\x7d'
  | _ => none

/-- The term of a field and what follows it. The term ends before a mark that introduces the rest of
the field, outside quotations and brackets. -/
def fieldTerm (quote : Option (Char × Bool)) (open' : List Char) :
    List Char → Option (List Char × List Char)
  | [] => none
  | c :: cs =>
    let go (quote : Option (Char × Bool)) (open' : List Char) :=
      (fieldTerm quote open' cs).map fun (t, r) ↦ (c :: t, r)
    if c == '\\' then none
    else
      match quote with
      | some (q, triple) =>
        if c != q then go quote open'
        else if !triple then go none open'
        else
          match cs with
          | a :: b :: cs =>
            if a == q && b == q then
              (fieldTerm none open' cs).map fun (t, r) ↦ (c :: a :: b :: t, r)
            else go quote open'
          | _ => none
      | none =>
        if Token.isQuote c then
          match cs with
          | a :: b :: cs =>
            if a == c && b == c then
              (fieldTerm (some (c, true)) open' cs).map fun (t, r) ↦ (c :: a :: b :: t, r)
            else go (some (c, false)) open'
          | _ => none
        else if c == '#' then none
        else
          match closing? c with
          | some d => go none (d :: open')
          | none =>
            if open'.isEmpty && [':', '!', '=', '<', '>', '\x7d'].contains c then
              match cs with
              | '=' :: cs' =>
                if ['!', '=', '<', '>'].contains c then
                  (fieldTerm none open' cs').map fun (t, r) ↦ (c :: '=' :: t, r)
                else some ([], c :: cs)
              | _ => if c == '<' || c == '>' then go none open' else some ([], c :: cs)
            else if [')', ']', '\x7d'].contains c then
              match open' with
              | d :: ds => if c == d then go none ds else none
              | [] => none
            else go none open'

def afterConversion : List Char → Option (List Char)
  | '!' :: c :: r => if c == 's' || c == 'r' || c == 'a' then some r else none
  | ['!'] => none
  | r => some r

/-- What follows fields and plain text: nothing at the top, and the closing brace in a format. The
terms of all fields must be readable. The first number bounds the steps. -/
def afterFields (readable : List Char → Bool) (raw : Bool) : Nat → Nat → List Char →
    Option (List Char)
  | 0, _, _ => none
  | n + 1, level, cs =>
    let go := afterFields readable raw n
    match cs with
    | [] => some []
    | '\x7b' :: r =>
      if level = 0 && r.head? == some '\x7b' then go level (r.drop 1)
      else if 2 ≤ level then none
      else do
        let (term, r) ← fieldTerm none [] r
        if term.all Text.isBlank || !readable term then none
        else
          let r := match r with
            | '=' :: r => r.dropWhile Text.isBlank
            | r => r
          let r ← afterConversion r
          let r ← match r with
            | ':' :: r => go (level + 1) r
            | r => some r
          match r with
          | '\x7d' :: r => go level r
          | _ => none
    | '\x7d' :: r =>
      if level = 0 then (if r.head? == some '\x7d' then go level (r.drop 1) else none)
      else some ('\x7d' :: r)
    | '\\' :: c :: r =>
      if raw || c == '\x7b' || c == '\x7d' then go level (c :: r)
      else if escapeOk c r then go level r
      else none
    | _ :: r => go level r

def fieldsOk (readable : List Char → Bool) (q : Quotation) : Bool :=
  afterFields readable q.raw (2 * q.body.length + 1) 0 q.body == some []

end Gridplan.Lambda.Quotation
