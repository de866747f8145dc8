import Gridplan.Lambda.Grammar
import Gridplan.Text.Case
import Gridplan.Text.Digest

namespace Gridplan.Script

def comment (description : String) (params : List String) : List String :=
  ["/**", " * " ++ description, " *"] ++
    params.map (fun p ↦ " * @param \x7b" ++ p ++ "\x7d " ++ p) ++
    [" * @return Computed value", " * @customfunction", " */"]

def function (name : String) (params : List String) (body : String) (description : Option String) :
    String :=
  let above := match description with
    | some d => if d == "" then [] else comment d params
    | none => []
  "\n".intercalate (above ++
    ["function " ++ name ++ "(" ++ ", ".intercalate params ++ ") \x7b"] ++
    ((body.splitOn "\n").map ("  " ++ ·)) ++ ["\x7d"])

/-- The parameters of the text of a lambda; a text that is none has one parameter. -/
def paramsOf (text : String) : List String :=
  match Lambda.Term.parse? text with
  | some (.lambda params _ _) => params
  | _ => ["value"]

/-- The first eight digits of the digest of a text. -/
def tag (text : String) : String :=
  Text.upper (String.ofList (((Text.Digest.ofText text).bytes.take 4).flatMap (Text.hex 2)))

def ofLambda (text base : String) : String × String :=
  let name := base ++ "_" ++ tag text
  let body := "// TODO: Implement custom logic\n" ++
    "// Original Python lambda: " ++ text ++ "\n" ++
    "// This function was automatically generated and requires manual implementation.\n" ++
    "Logger.log('Custom function called with: ' + arguments);\n" ++
    "return null; // Placeholder return value"
  (name, function name (paramsOf text) body
    (some ("Custom function generated from lambda: " ++ text)))

def arrayFunction (name description : String) : String :=
  "\n".intercalate [
    "/**",
    " * " ++ description,
    " *",
    " * @param \x7bArray<Array>\x7d input Input array (range)",
    " * @return \x7bArray<Array>\x7d Transformed array",
    " * @customfunction",
    " */",
    "function " ++ name ++ "(input) \x7b",
    "  if (!Array.isArray(input)) \x7b",
    "    return \"Error: Input must be a range\";",
    "  \x7d",
    "",
    "  // Process each row",
    "  return input.map(function(row) \x7b",
    "    // Process each cell in the row",
    "    return row.map(function(cell) \x7b",
    "      // TODO: Implement transformation logic",
    "      return cell;",
    "    \x7d);",
    "  \x7d);",
    "\x7d",
    ""]

def file (functions : List (String × String)) : String :=
  let rule := "// " ++ String.ofList (List.replicate 70 '=')
  "\n".intercalate ([
    "// Google Apps Script - Auto-generated by Fornero",
    "// Generated custom functions for spreadsheet operations",
    "",
    "// This file contains custom functions that implement complex",
    "// logic that cannot be expressed as standard spreadsheet formulas.",
    ""] ++
    functions.flatMap (fun (name, code) ↦ ["", rule, "// " ++ name, rule, "", code]) ++
    ["", "// End of auto-generated functions"])

end Gridplan.Script
