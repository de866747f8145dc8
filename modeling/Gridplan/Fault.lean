import Gridplan.Datum.Number
import Gridplan.Datum.Show

namespace Gridplan

inductive PlanRefusal where
  | leafWithInputs
  | inputCount (operation : String) (two : Bool)
  | noColumns
  | noPredicate
  | noJoinKeys
  | joinKind (got : Datum)
  | noAggregation (operation : String)
  | direction (window : Bool) (got : Datum)
  | noSortKey
  | negativeSortLimit
  | negativeCount
  | limitEnd (got : Datum)
  | noColumnName
  | noExpression
  | noIndex
  | noPivotColumns
  | noPivotValues
  | noIdVars
  | noFunction
  | noOutputColumn
  | untyped
  | unknownType (got : Datum)
  | noRoot
  | noVersionField
  | noRootField
  | version (got : Datum)
  | invalidDocument
  | rootOperation (message : String)
  | untraceable

inductive KindRefusal where
  | planRoot (got : String)
  | plan (got : String)
  | record (got : String)
  | text (got : String)
  | expression (got : String)
  | operation (title : String)

inductive SchemaRefusal where
  | missing (subject : String) (names available : List Datum)
  | unequal (left right : List Datum)

inductive GridRefusal where
  | negative
  | reversed
  | empty
  | cell (text : String)
  | range (text : String)
  | offset
  | expansion
  | sheetName
  | sheetSize
  | formula
  | reference
  | edit (got : Datum)

inductive LayoutRefusal where
  | noSchema
  | noColumn (name : String) (schema : List String)
  | predicate (got : String)

inductive RunRefusal where
  | noData
  | textExpression (got : Datum)
  | unequalSchemas (left right : List Datum)
  | windowFunction (func : String)
  | binaryOperator (op : String)
  | function (func : String)

inductive LambdaRefusal where
  | unreadable
  | notLambda
  | binary (title : String)
  | unary (title : String)
  | chained
  | comparison (title : String)
  | subscript
  | function (name : String)
  | method
  | attribute
  | node (title : String)

inductive Unsupported where
  | lambda (r : LambdaRefusal)
  | operation (title : String)
  | aggregation (func : String)
  | unequalSchemas (left right : List String)
  | pivotIndex (index : List String)
  | pivotAggregation (func : String)
  | noMeltValues
  | windowFunction (func : String)
  | windowFrame (frame : Datum)
  | windowInput (func : String) (running : Bool)
  | windowPartition (func : String)

inductive Invalid where
  | inputCount (operation : String) (two : Bool)
  | repeatedSheets (names : List String)
  | noSheet (edit sheet : String)
  | noNeededSheet (sheet needed : String)
  | noSheetForValues (sheet : String)
  | noSheetForFormula (sheet : String)
  | noSheetForName (sheet : String)
  | tooManyCells (count : Number) (limit : Int)
  | tooManyFormulas (count limit : Int)

inductive ServiceFailure where
  | failed (text : String)
  | gaveUp (what : String) (attempts : Int) (last : String)

/-- What can go wrong. A refusal is stated by the library itself and carries a message; the other
faults arise when data does not have the form that an operation takes. -/
inductive Fault where
  /-- Data of a kind that the operation does not take. -/
  | kind
  /-- A label that does not exist. -/
  | label
  /-- A member that the kind of data does not have. -/
  | member
  /-- Data of the right kind with a value that the operation does not take. -/
  | value
  /-- A sequence of `got` items where `expected` were needed. -/
  | arity (expected got : Nat)
  /-- A position outside a sequence. -/
  | position
  | zeroDivision
  | overflow
  /-- An operation that the type of the cells does not have. -/
  | undefined
  /-- Cells that are not numbers where only numbers can be accumulated. -/
  | notNumeric
  /-- Rows that have no counterpart in what they are matched with. -/
  | unaligned
  /-- A summary that is asked for twice. -/
  | repeated
  /-- A kind of join that does not exist. -/
  | joinKind
  /-- A name that stands for nothing. -/
  | unbound
  /-- Text that is no term. -/
  | grammar
  /-- A node of a kind that has no written form. -/
  | unwritable (operation : String)
  | plan (r : PlanRefusal)
  | mismatch (r : KindRefusal)
  | schema (r : SchemaRefusal)
  | grid (r : GridRefusal)
  | layout (r : LayoutRefusal)
  /-- A reference of a lambda that no cell stands for. -/
  | unmapped (reference : String)
  | run (r : RunRefusal)
  | unsupported (r : Unsupported)
  | invalid (r : Invalid)
  /-- A call that the service refused, in its own words. -/
  | refused (text : String)
  | service (r : ServiceFailure)

abbrev Outcome := Except Fault

def PlanRefusal.message : PlanRefusal → String
  | .leafWithInputs => "Source operation cannot have inputs"
  | .inputCount op two =>
    op ++ " operation must have exactly " ++ (if two then "two inputs" else "one input")
  | .noColumns => "Select operation must specify at least one column"
  | .noPredicate => "Filter operation must specify a predicate"
  | .noJoinKeys => "Join operation must specify join keys"
  | .joinKind got =>
    "Join type must be one of \x7b'inner', 'left', 'outer', 'right'\x7d, got: " ++ got.display
  | .noAggregation op => op ++ " operation must specify at least one aggregation"
  | .direction window got =>
    (if window then "Window order" else "Sort") ++ " direction must be 'asc' or 'desc', got: " ++
      got.display
  | .noSortKey => "Sort operation must specify at least one sort key"
  | .negativeSortLimit => "Sort limit must be non-negative"
  | .negativeCount => "Limit count must be non-negative"
  | .limitEnd got => "Limit end must be 'head' or 'tail', got: " ++ got.display
  | .noColumnName => "WithColumn operation must specify a column name"
  | .noExpression => "WithColumn operation must specify an expression"
  | .noIndex => "Pivot operation must specify index column(s)"
  | .noPivotColumns => "Pivot operation must specify columns"
  | .noPivotValues => "Pivot operation must specify values"
  | .noIdVars => "Melt operation must specify id_vars"
  | .noFunction => "Window operation must specify a function"
  | .noOutputColumn => "Window operation must specify an output column"
  | .untyped => "Operation dict must have 'type' field"
  | .unknownType got => "Unknown operation type: " ++ got.display
  | .noRoot => "Plan dict must have 'root' or 'type' key"
  | .noVersionField => "Serialized plan must have 'version' field"
  | .noRootField => "Serialized plan must have 'root' field"
  | .version got => "Unsupported serialization version: " ++ got.display ++ ". Expected 1.0"
  | .invalidDocument => "Invalid JSON"
  | .rootOperation message => "Failed to deserialize root operation: " ++ message
  | .untraceable =>
    "Cannot trace filter: condition has no _predicate. " ++
      "Use df[df['col'] > value] syntax to create trackable predicates."

def KindRefusal.message : KindRefusal → String
  | .planRoot got => "Plan root must be an Operation, got <class '" ++ got ++ "'>"
  | .plan got => "Expected LogicalPlan, got <class '" ++ got ++ "'>"
  | .record got => "Expected dict, got <class '" ++ got ++ "'>"
  | .text got => "Expected str, got <class '" ++ got ++ "'>"
  | .expression got => "Unknown expression type: " ++ got
  | .operation title => "Unknown operation type: " ++ title

def SchemaRefusal.message : SchemaRefusal → String
  | .missing subject names available =>
    subject ++ " references non-existent columns: " ++ (Datum.list names).quoted ++
      ". Available columns: " ++ (Datum.list available).quoted
  | .unequal left right =>
    "Union requires identical schemas. Left schema: " ++ (Datum.list left).quoted ++
      ", Right schema: " ++ (Datum.list right).quoted

def GridRefusal.message : GridRefusal → String
  | .negative => "Row and column must be non-negative (0-indexed)"
  | .reversed => "End coordinates must be >= start coordinates"
  | .empty => "Empty range notation"
  | .cell text => "Invalid cell notation: " ++ text
  | .range text => "Invalid range notation: " ++ text
  | .offset => "Offset results in invalid coordinates (< 0)"
  | .expansion => "Expansion results in invalid range"
  | .sheetName => "Sheet name must be a non-empty string"
  | .sheetSize => "Sheet dimensions must be positive integers"
  | .formula => "Formula expression must be a string"
  | .reference => "range_ref must be a Range object or string"
  | .edit got => "Unknown operation type: " ++ got.display

def LayoutRefusal.message : LayoutRefusal → String
  | .noSchema => "Source operation must have schema defined for translation"
  | .noColumn name schema =>
    "Column '" ++ name ++ "' not found in input schema: " ++ Datum.quotedNames schema
  | .predicate got =>
    "Predicate must be an Expression AST node, got " ++ got ++
      ". Use col() helper to create predicates."

def RunRefusal.message : RunRefusal → String
  | .noData =>
    "Source operation has no data for eager execution. " ++
      "Set Source.data to a DataFrame before calling execute()."
  | .textExpression got =>
    "Cannot eagerly evaluate string expression: " ++ got.quoted ++
      ". Use an Expression AST for eager execution."
  | .unequalSchemas left right =>
    "Union requires identical schemas, got " ++ (Datum.list left).quoted ++ " and " ++
      (Datum.list right).quoted
  | .windowFunction func => "Unsupported window function: " ++ Text.quote func
  | .binaryOperator op => "Unknown binary operator: " ++ Text.quote op
  | .function func => "Unknown function: " ++ Text.quote func

def LambdaRefusal.message : LambdaRefusal → String
  | .unreadable => "Syntax error"
  | .notLambda => "Expression is not a lambda function"
  | .binary title => "Binary operator " ++ title ++ " not supported"
  | .unary title => "Unary operator " ++ title ++ " not supported"
  | .chained => "Chained comparisons not supported"
  | .comparison title => "Comparison operator " ++ title ++ " not supported"
  | .subscript => "Complex subscript expressions not supported"
  | .function name => "Function '" ++ name ++ "' not supported"
  | .method => "Method calls not supported"
  | .attribute => "Attribute access and method calls not supported"
  | .node title => "AST node type " ++ title ++ " not supported"

def Unsupported.message : Unsupported → String
  | .lambda r => "Lambda function cannot be translated: " ++ r.message
  | .operation title => "Unknown operation type: " ++ title
  | .aggregation func => "Aggregation function '" ++ func ++ "' not supported"
  | .unequalSchemas left right =>
    "Union requires identical schemas, got " ++ Datum.quotedNames left ++ " and " ++
      Datum.quotedNames right
  | .pivotIndex index =>
    "Pivot with multiple index columns is not supported: " ++ Datum.quotedNames index
  | .pivotAggregation func => "Pivot aggregation function '" ++ func ++ "' not supported"
  | .noMeltValues => "Melt requires at least one value column"
  | .windowFunction func =>
    "Window function '" ++ func ++ "' cannot be expressed as a spreadsheet formula. " ++
      "Supported functions: rank, row_number, sum, mean, min, max, count, lag, lead."
  | .windowFrame frame =>
    "Window frame '" ++ frame.display ++ "' not supported. " ++
      "Only 'unbounded preceding to current row' is supported."
  | .windowInput func running =>
    (if running then "Running aggregate window" else "Window") ++ " function '" ++ func ++
      "' requires an input column"
  | .windowPartition func =>
    "Partition-aware " ++ func ++ " cannot be expressed as a spreadsheet " ++
      "formula because OFFSET would cross partition boundaries. " ++
      "Remove partition_by or compute this column in pandas."

def grouped (n : Int) : String :=
  let digits := (toString n.natAbs).toList
  let lead := digits.length % 3
  let groups := (digits.drop lead).zipIdx.map fun (c, i) ↦ if i % 3 == 0 then [',', c] else [c]
  let text := digits.take lead ++ (if lead = 0 then groups.flatten.drop 1 else groups.flatten)
  String.ofList (if n < 0 then '-' :: text else text)

def groupedNumber : Number → String
  | .int n => grouped n
  | .float x =>
    match (Datum.float x).display.splitOn "." with
    | [a, b] => (a.toInt?.elim a grouped) ++ "." ++ b
    | parts => ".".intercalate parts

def nameSet (names : List String) : String :=
  let quoted := (names.map Text.quote).mergeSort fun a b ↦ !(b < a)
  "\x7b" ++ ", ".intercalate quoted ++ "\x7d"

def Invalid.message : Invalid → String
  | .inputCount op two =>
    op ++ " operation must have exactly " ++ (if two then "two inputs" else "one input")
  | .repeatedSheets names => "Duplicate sheet names in CreateSheet operations: " ++ nameSet names
  | .noSheet edit sheet => edit ++ " references non-existent sheet: " ++ sheet
  | .noNeededSheet sheet needed =>
    "SetFormula on sheet '" ++ sheet ++ "' references non-existent sheet: " ++ needed
  | .noSheetForValues sheet => "Cannot write values: sheet '" ++ sheet ++ "' not found"
  | .noSheetForFormula sheet => "Cannot write formula: sheet '" ++ sheet ++ "' not found"
  | .noSheetForName sheet => "Cannot create named range: sheet '" ++ sheet ++ "' not found"
  | .tooManyCells count limit =>
    "Dataset too large for Google Sheets: " ++ groupedNumber count ++ " cells (limit: " ++ grouped limit ++
      "). Please reduce the data size."
  | .tooManyFormulas count limit =>
    "Too many formulas for Google Sheets: " ++ grouped count ++ " (limit: ~" ++ grouped limit ++
      "). Please reduce the complexity."

def ServiceFailure.message : ServiceFailure → String
  | .failed text => text
  | .gaveUp what attempts last =>
    "Failed to " ++ what ++ " after " ++ toString attempts ++ " attempts: " ++ last

def Fault.message? : Fault → Option String
  | .unwritable op => some ("to_dict not implemented for " ++ op)
  | .plan r => some r.message
  | .mismatch r => some r.message
  | .schema r => some r.message
  | .grid r => some r.message
  | .layout r => some r.message
  | .unmapped reference => some ("No cell reference mapping for column '" ++ reference ++ "'")
  | .run r => some r.message
  | .unsupported r => some r.message
  | .invalid r => some r.message
  | .service r => some r.message
  | _ => none

end Gridplan
