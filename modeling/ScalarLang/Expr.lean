import ScalarLang.Number.Decimal
import ScalarLang.ScalarType
import ScalarLang.Tree

/-!
# Expressions and programs

What a source means once it has been analysed, and how it is written back. Declarations and
assignments are expressions as well, although a source has them as statements only.

A number knows whether it was written without a point; it is written back in the same form.
-/

namespace ScalarLang

/-- The operators of two operands. Additive and multiplicative ones carry their symbol. -/
inductive BinaryOp
  | disjunction
  | conjunction
  | additive (symbol : String)
  | multiplicative (symbol : String)
  deriving DecidableEq, Repr, Inhabited

namespace BinaryOp

/-- The class of an operator. -/
def cls : BinaryOp → BinaryClass
  | disjunction => .disjunction
  | conjunction => .conjunction
  | additive _ => .additive
  | multiplicative _ => .multiplicative

/-- The symbol of an operator. -/
def symbol : BinaryOp → String
  | disjunction => "||"
  | conjunction => "&&"
  | additive symbol => symbol
  | multiplicative symbol => symbol

end BinaryOp

/-- The symbol of an operator. -/
def UnaryOp.symbol : UnaryOp → String
  | minus => "-"
  | not => "!"

/-- An expression. -/
inductive Expr
  | number (value : Binary64) (isInteger : Bool)
  | boolean (value : Bool)
  | var (name : String)
  | parens (inner : Expr)
  | unary (op : UnaryOp) (operand : Expr)
  | binary (op : BinaryOp) (left right : Expr)
  | declaration (name : String) (type : ScalarType) (value : Expr)
  | assignment (name : String) (value : Expr)
  deriving DecidableEq, Repr, Inhabited

namespace Expr

/-- The text of a number: a whole number, or the fewest digits that read back with a point among
them. -/
def numberText (value : Binary64) (isInteger : Bool) : String :=
  if isInteger then value.wholeText
  else
    let text := value.shortestText
    if text.toList.contains '.' then text else text ++ ".0"

/-- The text of a truth value. -/
def booleanText (value : Bool) : String :=
  if value then "true" else "false"

/-- The text of an expression. -/
def text : Expr → String
  | number value isInteger => numberText value isInteger
  | boolean value => booleanText value
  | var name => name
  | parens inner => "(" ++ inner.text ++ ")"
  | unary op operand => op.symbol ++ operand.text
  | binary op left right => left.text ++ " " ++ op.symbol ++ " " ++ right.text
  | declaration name type value => type.name ++ " " ++ name ++ " = " ++ value.text
  | assignment name value => name ++ " = " ++ value.text

end Expr

/-- A program: its statements in order. -/
structure Program where
  statements : List Expr
  deriving DecidableEq, Repr, Inhabited

/-- The text of a program: each statement on a line of its own, with a semicolon. -/
def Program.text (p : Program) : String :=
  p.statements.foldr (fun statement rest => statement.text ++ ";\n" ++ rest) ""

end ScalarLang
