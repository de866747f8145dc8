import Gridplan.Expr.Basic
import Gridplan.Frame.Basic

namespace Gridplan

inductive Kind where
  | source | select | filter | join | groupBy | aggregate | sort | limit | withColumn | union
  | pivot | melt | window
  | bare
deriving DecidableEq, Inhabited

namespace Kind

def title : Kind → String
  | .source => "Source"
  | .select => "Select"
  | .filter => "Filter"
  | .join => "Join"
  | .groupBy => "GroupBy"
  | .aggregate => "Aggregate"
  | .sort => "Sort"
  | .limit => "Limit"
  | .withColumn => "WithColumn"
  | .union => "Union"
  | .pivot => "Pivot"
  | .melt => "Melt"
  | .window => "Window"
  | .bare => "Operation"

def tag : Kind → String
  | .source => "source"
  | .select => "select"
  | .filter => "filter"
  | .join => "join"
  | .groupBy => "groupby"
  | .aggregate => "aggregate"
  | .sort => "sort"
  | .limit => "limit"
  | .withColumn => "with_column"
  | .union => "union"
  | .pivot => "pivot"
  | .melt => "melt"
  | .window => "window"
  | .bare => "operation"

def all : List Kind :=
  [.source, .select, .filter, .join, .groupBy, .aggregate, .sort, .limit, .withColumn, .union,
    .pivot, .melt, .window]

def ofTag? (s : String) : Option Kind := all.find? (·.tag == s)

end Kind

inductive JoinKind where
  | inner | left | right | outer
deriving DecidableEq, Inhabited

def JoinKind.name : JoinKind → String
  | .inner => "inner"
  | .left => "left"
  | .right => "right"
  | .outer => "outer"

def JoinKind.ofName? : String → Option JoinKind
  | "inner" => some .inner
  | "left" => some .left
  | "right" => some .right
  | "outer" => some .outer
  | _ => none

inductive Direction where
  | asc | desc
deriving DecidableEq, Inhabited

def Direction.name : Direction → String
  | .asc => "asc"
  | .desc => "desc"

def Direction.ofName? : String → Option Direction
  | "asc" => some .asc
  | "desc" => some .desc
  | _ => none

inductive Side where
  | head | tail
deriving DecidableEq, Inhabited

def Side.name : Side → String
  | .head => "head"
  | .tail => "tail"

def Side.ofName? : String → Option Side
  | "head" => some .head
  | "tail" => some .tail
  | _ => none

structure SortKey where
  column : String
  direction : Direction
deriving DecidableEq, Inhabited

structure Aggregation where
  output : String
  func : String
  column : String
deriving DecidableEq, Inhabited

/-- What a node does with its inputs. A `loose` operator has a parameter of an unexpected kind: it
can be described and stored, and fails when it is used. -/
inductive Operator where
  | source (id : String) (schema : Option (List String)) (data : Option Frame)
  | select (columns : List String) (predicate : Option Expr)
  | filter (predicate : Expr)
  | join (leftOn rightOn : List String) (kind : JoinKind) (suffixes : Option String × Option String)
  | groupBy (keys : List String) (aggregations : List Aggregation) (sortKeys : List SortKey)
      (limit : Option Int)
  | aggregate (aggregations : List Aggregation)
  | sort (keys : List SortKey) (limit : Option Int) (predicate : Option Expr)
  | limit (count : Int) (side : Side)
  | withColumn (column : String) (expression : Expr)
  | union
  | pivot (index : List String) (columns values : String) (aggfunc : Option String)
  | melt (idVars : List String) (valueVars : Option (List String)) (varName valueName : String)
  | window (func : String) (input : Option String) (output : String) (partitionBy : List String)
      (orderBy : List SortKey) (frame : Datum)
  | bare
  | loose (kind : Kind) (params : List (String × Expr))
deriving Inhabited

def Operator.kind : Operator → Kind
  | .source .. => .source
  | .select .. => .select
  | .filter .. => .filter
  | .join .. => .join
  | .groupBy .. => .groupBy
  | .aggregate .. => .aggregate
  | .sort .. => .sort
  | .limit .. => .limit
  | .withColumn .. => .withColumn
  | .union => .union
  | .pivot .. => .pivot
  | .melt .. => .melt
  | .window .. => .window
  | .bare => .bare
  | .loose k _ => k

/-- A tree of relational operators. A node may carry a mark; occurrences with the same mark are one
node that several others share. -/
inductive Plan where
  | node (mark : Option Nat) (op : Operator) (inputs : List Plan)
deriving Inhabited

namespace Plan

def mark : Plan → Option Nat
  | .node m _ _ => m

def op : Plan → Operator
  | .node _ o _ => o

def inputs : Plan → List Plan
  | .node _ _ is => is

def kind (p : Plan) : Kind := p.op.kind

def fresh (op : Operator) (inputs : List Plan) : Plan := .node none op inputs

mutual

def size : Plan → Nat
  | .node _ _ is => sizeList is + 1

def sizeList : List Plan → Nat
  | [] => 0
  | p :: ps => size p + sizeList ps

end

end Plan

end Gridplan
