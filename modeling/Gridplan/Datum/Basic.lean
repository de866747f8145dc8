namespace Gridplan

/-- A piece of data. Lists and tuples differ only in how they are written and compared; the fields
of a record keep the order in which they were entered. -/
inductive Datum where
  | null
  | bool (b : Bool)
  | int (n : Int)
  | float (x : Float)
  | text (s : String)
  | list (items : List Datum)
  | tuple (items : List Datum)
  | record (fields : List (String × Datum))
deriving Inhabited

namespace Datum

mutual

/-- Identity of data, told apart down to the bits of numbers. -/
def decEq : (a b : Datum) → Decidable (a = b)
  | .null, b => by cases b <;> first | exact isTrue rfl | exact isFalse (by simp)
  | .bool x, b => by
    cases b with
    | bool y => exact decidable_of_iff (x = y) (by simp)
    | _ => exact isFalse (by simp)
  | .int x, b => by
    cases b with
    | int y => exact decidable_of_iff (x = y) (by simp)
    | _ => exact isFalse (by simp)
  | .float x, b => by
    cases b with
    | float y => exact decidable_of_iff (x = y) (by simp)
    | _ => exact isFalse (by simp)
  | .text x, b => by
    cases b with
    | text y => exact decidable_of_iff (x = y) (by simp)
    | _ => exact isFalse (by simp)
  | .list xs, b => by
    cases b with
    | list ys => exact @decidable_of_iff _ (xs = ys) (by simp) (decEqList xs ys)
    | _ => exact isFalse (by simp)
  | .tuple xs, b => by
    cases b with
    | tuple ys => exact @decidable_of_iff _ (xs = ys) (by simp) (decEqList xs ys)
    | _ => exact isFalse (by simp)
  | .record xs, b => by
    cases b with
    | record ys => exact @decidable_of_iff _ (xs = ys) (by simp) (decEqFields xs ys)
    | _ => exact isFalse (by simp)

def decEqList : (xs ys : List Datum) → Decidable (xs = ys)
  | [], [] => isTrue rfl
  | [], _ :: _ => isFalse (by simp)
  | _ :: _, [] => isFalse (by simp)
  | x :: xs, y :: ys =>
    @decidable_of_iff _ (x = y ∧ xs = ys) (by simp)
      (@instDecidableAnd _ _ (decEq x y) (decEqList xs ys))

def decEqFields : (xs ys : List (String × Datum)) → Decidable (xs = ys)
  | [], [] => isTrue rfl
  | [], _ :: _ => isFalse (by simp)
  | _ :: _, [] => isFalse (by simp)
  | (k, v) :: xs, (l, w) :: ys =>
    @decidable_of_iff _ (k = l ∧ v = w ∧ xs = ys) (by simp [and_assoc])
      (@instDecidableAnd _ _ inferInstance
        (@instDecidableAnd _ _ (decEq v w) (decEqFields xs ys)))

end

instance : DecidableEq Datum := decEq

/-- Whether data counts as present: not missing, not false, not zero, not empty. -/
def truthy : Datum → Bool
  | .null => false
  | .bool b => b
  | .int n => n != 0
  | .float x => x != 0
  | .text s => s != ""
  | .list xs => !xs.isEmpty
  | .tuple xs => !xs.isEmpty
  | .record fs => !fs.isEmpty

def field? (d : Datum) (key : String) : Option Datum :=
  match d with
  | .record fs => fs.lookup key
  | _ => none

def fields : Datum → List (String × Datum)
  | .record fs => fs
  | _ => []

def text? : Datum → Option String
  | .text s => some s
  | _ => none

def texts? : Datum → Option (List String)
  | .list xs => xs.mapM text?
  | _ => none

def kindName : Datum → String
  | .null => "NoneType"
  | .bool _ => "bool"
  | .int _ => "int"
  | .float _ => "float"
  | .text _ => "str"
  | .list _ => "list"
  | .tuple _ => "tuple"
  | .record _ => "dict"

mutual

def depth : Datum → Nat
  | .list xs => depthList xs + 1
  | .tuple xs => depthList xs + 1
  | .record fs => depthFields fs + 1
  | _ => 1

def depthList : List Datum → Nat
  | [] => 0
  | x :: xs => max (depth x) (depthList xs)

def depthFields : List (String × Datum) → Nat
  | [] => 0
  | (_, v) :: fs => max (depth v) (depthFields fs)

end

def ofTexts (xs : List String) : Datum := .list (xs.map .text)

def ofOption : Option Datum → Datum
  | none => .null
  | some d => d

def ofText? : Option String → Datum
  | none => .null
  | some s => .text s

end Datum

end Gridplan
