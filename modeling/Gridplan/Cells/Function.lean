import Gridplan.Cells.Rows
import Gridplan.Cells.Sort
import Gridplan.Cells.Lookup
import Gridplan.Cells.Query

namespace Gridplan.Cells

inductive Function where
  | filter | unique | arrayFormula | arrayConstrain | transpose | sort | xmatch | xlookup | query
deriving DecidableEq

namespace Function

def all : List Function :=
  [.filter, .unique, .arrayFormula, .arrayConstrain, .transpose, .sort, .xmatch, .xlookup, .query]

def name : Function → String
  | .filter => "FILTER"
  | .unique => "UNIQUE"
  | .arrayFormula => "ARRAYFORMULA"
  | .arrayConstrain => "ARRAY_CONSTRAIN"
  | .transpose => "TRANSPOSE"
  | .sort => "SORT"
  | .xmatch => "XMATCH"
  | .xlookup => "XLOOKUP"
  | .query => "QUERY"

def ofName? (s : String) : Option Function := all.find? (·.name == s)

def arity : Function → Nat × Nat
  | .filter => (2, 3)
  | .unique => (1, 1)
  | .arrayFormula => (1, 1)
  | .arrayConstrain => (3, 3)
  | .transpose => (1, 1)
  | .sort => (3, 11)
  | .xmatch => (2, 4)
  | .xlookup => (3, 6)
  | .query => (2, 3)

def overrides : Function → Bool
  | .arrayFormula | .arrayConstrain | .query => false
  | _ => true

def options (f : Function) : Datum :=
  .record ([("min_args", .int f.arity.1), ("max_args", .int f.arity.2)] ++
    if f.overrides then [("allow_override_builtin", .bool true)] else [])

def apply : Function → List Datum → Outcome Datum
  | .filter, [data, condition] => .ok (Cells.filter data condition .null)
  | .filter, [data, condition, otherwise] => .ok (Cells.filter data condition otherwise)
  | .unique, [data] => .ok (Cells.unique data)
  | .arrayFormula, [value] => .ok value
  | .arrayConstrain, [data, height, width] => Cells.constrain data height width
  | .transpose, [data] => Cells.transpose data
  | .sort, data :: arguments => Cells.sort data arguments
  | .xmatch, keys :: cells :: _ => Cells.xmatch keys cells
  | .xlookup, [keys, cells, results] => Cells.xlookup keys cells results .null
  | .xlookup, keys :: cells :: results :: otherwise :: _ => Cells.xlookup keys cells results otherwise
  | .query, data :: text :: _ => Cells.query data text
  | _, _ => .error .kind

end Function

end Gridplan.Cells
