import Gridplan.Datum.Show
import Gridplan.Datum.Number

namespace Gridplan

/-- A number of rows, or the place of a row counted from zero. -/
inductive Extent where
  | whole (n : Nat)
  | part (x : Float)
deriving DecidableEq, Inhabited

namespace Extent

instance : Coe Nat Extent := ⟨.whole⟩

def toNumber : Extent → Number
  | .whole n => .int n
  | .part x => .float x

def toFloat : Extent → Float
  | .whole n => Float.ofNat n
  | .part x => x

def add : Extent → Extent → Extent
  | .whole m, .whole n => .whole (m + n)
  | a, b => .part (a.toFloat + b.toFloat)

def succ (a : Extent) : Extent := a.add (.whole 1)

def times (k : Nat) : Extent → Extent
  | .whole n => .whole (n * k)
  | .part x => .part (x * Float.ofNat k)

def less (k : Nat) : Extent → Extent
  | .whole n => .whole (n - k)
  | .part x => .part (x - Float.ofNat k)

def least : Extent → Extent → Extent
  | .whole m, .whole n => .whole (min m n)
  | a, b => if b.toNumber.compare? a.toNumber == some .lt then b else a

def most : Extent → Extent → Extent
  | .whole m, .whole n => .whole (max m n)
  | a, b => if a.toNumber.compare? b.toNumber == some .lt then b else a

def toText (a : Extent) : String := a.toNumber.toDatum.display

@[simp] theorem add_whole (m n : Nat) : add (.whole m) (.whole n) = .whole (m + n) := rfl

@[simp] theorem succ_whole (n : Nat) : succ (.whole n) = .whole (n + 1) := rfl

@[simp] theorem least_whole (m n : Nat) : least (.whole m) (.whole n) = .whole (min m n) := rfl

end Extent

end Gridplan
