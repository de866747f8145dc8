namespace Gridplan.Text

def occursIn (part : List Char) : List Char → Bool
  | [] => part.isEmpty
  | c :: cs => part.isPrefixOf (c :: cs) || occursIn part cs

/-- Replaces every occurrence of a list that is not empty, from left to right and without overlap;
the number counts characters of an occurrence that are still to be passed over. -/
def replaceList (old new : List Char) : Nat → List Char → List Char
  | _, [] => []
  | skip + 1, _ :: cs => replaceList old new skip cs
  | 0, c :: cs =>
    if old.isPrefixOf (c :: cs) then new ++ replaceList old new (old.length - 1) cs
    else c :: replaceList old new 0 cs

def holds (s part : String) : Bool := occursIn part.toList s.toList

def replace (s old new : String) : String :=
  String.ofList (replaceList old.toList new.toList 0 s.toList)

end Gridplan.Text
