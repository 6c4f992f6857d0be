import ScalarLang.Diagnostic
import ScalarLang.Expr
import ScalarLang.Number.Numeral
import ScalarLang.SymbolTable

/-!
# Analysis of expressions

A syntax tree in expression position is turned into an expression. Reading a variable that is not
declared is reported and analysis goes on; a node that is not built as its kind demands and a minus
before the minus of a number or variable end the analysis.

The tree may have been built by hand. Where analysis would have to read a node that is missing, it
ends without any result; where a missing node is merely an operand, that is a malformed tree.
-/

namespace ScalarLang.Analysis

/-- Why analysis ends early. -/
inductive Halt
  /-- The program is rejected for this reason alone. -/
  | fatal (diagnostic : Diagnostic)
  /-- The text or position of a missing node would have to be read. -/
  | missingNode
  deriving DecidableEq, Repr, Inhabited

/-- The end of analysis at a node that is not built as its kind demands. -/
def malformed (t : Tree) (reason : String) : Halt :=
  .fatal ⟨.malformed t.kind reason, t.position⟩

/-- The number that a text denotes. It is an integer if there is no point in the text. -/
def numberLiteral? (text : String) : Option Expr :=
  (Numeral.value? text).map fun value => .number value (!text.toList.contains '.')

/-- The truth value that a text denotes. -/
def booleanLiteral? (text : String) : Option Expr :=
  if text = "true" then some (.boolean true)
  else if text = "false" then some (.boolean false)
  else none

/-- The operator of a binary node. The operator token of a conjunction or disjunction is not
looked at. -/
def binaryOp (cls : BinaryClass) (op : Tree) : Except Halt BinaryOp :=
  match cls, op with
  | .conjunction, _ => .ok .conjunction
  | .disjunction, _ => .ok .disjunction
  | .additive, .node kind text position children =>
    if text = "+" || text = "-" then .ok (.additive text)
    else .error (malformed (.node kind text position children) s!"unexpected operator '{text}'")
  | .multiplicative, .node kind text position children =>
    if text = "*" || text = "/" || text = "%" then .ok (.multiplicative text)
    else .error (malformed (.node kind text position children) s!"unexpected operator '{text}'")
  | _, .missing => .error .missingNode

/-- Whether a further minus may not stand before an expression. -/
def isMinusOfAtom : Expr → Bool
  | .unary .minus (.number _ _) => true
  | .unary .minus (.var _) => true
  | _ => false

/-- The unary operation at a given position, unless it is a minus too many. -/
def unaryExpr (op : UnaryOp) (operand : Expr) (position : Option Position) : Except Halt Expr :=
  if op = .minus && isMinusOfAtom operand then .error (.fatal ⟨.consecutiveMinus, position⟩)
  else .ok (.unary op operand)

/-- The expression of a syntax tree, and the undeclared variables it reads, from left to right. -/
def expression (symbols : SymbolTable) : Tree → Except Halt (Expr × List Diagnostic)
  | .missing => .error (malformed .missing "missing expression")
  | .node .number text position children =>
    match numberLiteral? text with
    | some e => .ok (e, [])
    | none =>
      .error (malformed (.node .number text position children) s!"invalid number '{text}'")
  | .node .boolean text position children =>
    match booleanLiteral? text with
    | some e => .ok (e, [])
    | none =>
      .error (malformed (.node .boolean text position children) s!"invalid boolean '{text}'")
  | .node .var name position _ =>
    .ok (.var name,
      if (symbols.find? name).isSome then [] else [⟨.undeclared name, position⟩])
  | .node .parens _ _ [inner] => do
    let (inner, diagnostics) ← expression symbols inner
    return (.parens inner, diagnostics)
  | .node (.unary op) _ position [operand] => do
    let (operand, diagnostics) ← expression symbols operand
    let e ← unaryExpr op operand position
    return (e, diagnostics)
  | .node (.binary cls) _ _ [left, op, right] => do
    let (left, leftDiagnostics) ← expression symbols left
    let (right, rightDiagnostics) ← expression symbols right
    let op ← binaryOp cls op
    return (.binary op left right, leftDiagnostics ++ rightDiagnostics)
  | .node .parens text position children =>
    .error (malformed (.node .parens text position children) "expected a single operand")
  | .node (.unary op) text position children =>
    .error (malformed (.node (.unary op) text position children) "expected a single operand")
  | .node (.binary cls) text position children =>
    .error (malformed (.node (.binary cls) text position children)
      "expected two operands and an operator")
  | .node kind text position children =>
    .error (malformed (.node kind text position children) "expected an expression")

end ScalarLang.Analysis
