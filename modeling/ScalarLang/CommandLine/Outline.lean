import ScalarLang.CommandLine.Listing
import ScalarLang.Expr
import ScalarLang.Text.Quoted

/-!
# Outline of a program

The structure of a program, one field to a line. A record with plain fields only is shown in one
line, and without its fields if they are all zero. The values of neighbouring fields are aligned;
a field that takes several lines is the last of its neighbours. Records beyond a given depth are
not shown.
-/

namespace ScalarLang.CommandLine

/-- How a number is shown: the fewest digits that read back, in their places for numbers from
`10 ^ (-4)` to below `10 ^ 6` and by a power of ten otherwise. -/
def outlineNumber (v : Binary64) : String :=
  v.textWith fun rank =>
    let d := Decimal.shortest rank
    if d.magnitude < -4 || 6 ≤ d.magnitude then d.scientific else d.positional

/-- A field of a record: its label, and the lines of its value. -/
structure Field where
  label : String
  value : List String
  deriving DecidableEq, Repr, Inhabited

namespace Field

/-- Cuts fields into runs of neighbours. -/
def runs : List Field → List (List Field)
  | [] => []
  | field :: fields =>
    if 1 < field.value.length then [field] :: runs fields
    else
      match runs fields with
      | [] => [[field]]
      | run :: later => (field :: run) :: later

/-- The lines of a field whose value starts after `width` characters. -/
def lines (width : Nat) (f : Field) : List String :=
  match f.value with
  | [] => []
  | first :: rest => (padTo width (f.label ++ ":") ++ first) :: rest

/-- The lines of a run. -/
def runLines (run : List Field) : List (List String) :=
  run.map (lines (widest (run.map (·.label)) + 2))

end Field

/-- Adds a comma to the last of some lines. -/
def withComma : List String → List String
  | [] => []
  | [line] => [line ++ ","]
  | line :: lines => line :: withComma lines

/-- Moves lines to the right. -/
def indent (lines : List String) : List String :=
  lines.map ("    " ++ ·)

/-- A record with a field to a line. -/
def record (name : String) (fields : List Field) : List String :=
  ("&seasharp." ++ name ++ "\x7b") ::
    ((Field.runs fields).flatMap Field.runLines).flatMap (fun lines => indent (withComma lines)) ++
    ["\x7d"]

/-- A record in one line. -/
def inlineRecord (name : String) (fields : List (String × String)) : List String :=
  ["&seasharp." ++ name ++ "\x7b" ++
    ", ".intercalate (fields.map fun (label, value) => label ++ ":" ++ value) ++ "\x7d"]

/-- The lines of an expression, which may go `depth` records deep. -/
def outlineExpr : Nat → Expr → List String
  | 0, _ => ["&!%v(DEPTH EXCEEDED)"]
  | _ + 1, .number value isInteger =>
    if value.rank = 0 && !isInteger then inlineRecord "Number" []
    else
      inlineRecord "Number"
        [("Value", outlineNumber value), ("IsInteger", Expr.booleanText isInteger)]
  | _ + 1, .boolean value =>
    inlineRecord "Bool" (if value then [("Value", Expr.booleanText value)] else [])
  | _ + 1, .var name =>
    inlineRecord "Variable" (if name = "" then [] else [("Name", Text.quoted name)])
  | depth + 1, .parens inner => record "Parens" [⟨"Inner", outlineExpr depth inner⟩]
  | depth + 1, .unary op operand =>
    record (NodeKind.unary op).name [⟨"Operand", outlineExpr depth operand⟩]
  | depth + 1, .binary op left right =>
    let operands : List Field :=
      [⟨"Left", outlineExpr depth left⟩, ⟨"Right", outlineExpr depth right⟩]
    let symbol : List Field :=
      match op with
      | .additive symbol | .multiplicative symbol => [⟨"Op", [Text.quoted symbol]⟩]
      | .conjunction | .disjunction => []
    record (NodeKind.binary op.cls).name (operands ++ symbol)
  | depth + 1, .declaration name type value =>
    record "VariableDeclaration"
      [⟨"Name", [Text.quoted name]⟩, ⟨"DeclaredType", [toString type.code]⟩,
       ⟨"Initializer", outlineExpr depth value⟩]
  | depth + 1, .assignment name value =>
    record "Assignment" [⟨"Name", [Text.quoted name]⟩, ⟨"Value", outlineExpr depth value⟩]

/-- How many records deep a statement is shown. -/
def outlineDepth : Nat := 8

/-- The lines of a program. -/
def outlineLines (p : Program) : List String :=
  if p.statements.isEmpty then ["&seasharp.Program\x7b\x7d"]
  else
    let statements := p.statements.flatMap fun e => indent (withComma (outlineExpr outlineDepth e))
    "&seasharp.Program\x7b" :: indent ("Statements: \x7b" :: statements ++ ["\x7d,"]) ++ ["\x7d"]

/-- The outline of a program. -/
def outline (p : Program) : String :=
  String.join ((outlineLines p).map (· ++ "\n"))

end ScalarLang.CommandLine
