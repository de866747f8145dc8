import Gridplan.Text.Classes

namespace Gridplan.Local

def splitAt (sep : Char) : List Char → List (List Char)
  | [] => [[]]
  | c :: cs =>
    if c == sep then [] :: splitAt sep cs
    else
      match splitAt sep cs with
      | [] => [[c]]
      | p :: ps => (c :: p) :: ps

def hasAddress : List Char → Bool
  | a :: b :: rest =>
    ('A' ≤ a && a ≤ 'Z' && (Text.digitValue? b).isSome) || hasAddress (b :: rest)
  | _ => false

def asCall (func : String) (parts : List (List Char)) : List Char :=
  func.toList ++ ['('] ++ [',', ' '].intercalate (parts.map Text.trimList) ++ [')']

def stack (inner : List Char) : List Char :=
  if inner.contains ';' then asCall "VSTACK" (splitAt ';' inner)
  else if inner.contains ',' &&
      (splitAt ',' inner).any (fun p ↦ p.contains '!' || hasAddress (Text.trimList p)) then
    asCall "HSTACK" (splitAt ',' inner)
  else '\x7b' :: inner ++ ['\x7d']

def isInner (c : Char) : Bool := c != '\x7b' && c != '\x7d'

def literal? : List Char → Option (List Char × List Char)
  | '\x7b' :: cs =>
    match cs.takeWhile isInner, cs.dropWhile isInner with
    | [], _ => none
    | inner, '\x7d' :: rest => some (inner, rest)
    | _, _ => none
  | _ => none

/-- Goes through a text; the number counts characters of a literal still to be passed over. -/
def stackFrom : Nat → List Char → List Char
  | _, [] => []
  | skip + 1, _ :: cs => stackFrom skip cs
  | 0, c :: cs =>
    match literal? (c :: cs) with
    | some (inner, _) => stack inner ++ stackFrom (inner.length + 1) cs
    | none => c :: stackFrom 0 cs

/-- Turns array literals that hold references into calls: columns side by side into `HSTACK`, blocks
on top of each other into `VSTACK`. -/
def stackArrays (formula : String) : String := String.ofList (stackFrom 0 formula.toList)

end Gridplan.Local
