import ScalarLang.ScalarType
import ScalarLang.Tree

/-!
# Diagnostics

What analysis finds wrong with a program, and where.
-/

namespace ScalarLang

namespace Diagnostic

/-- What is wrong. -/
inductive Cause
  /-- A declared name is declared again. -/
  | alreadyDeclared (name : String)
  /-- A name is used that is not declared. -/
  | undeclared (name : String)
  /-- A minus is applied to the minus of a number or variable. -/
  | consecutiveMinus
  /-- A value is stored in a variable that cannot hold it. -/
  | incompatible (target value : ScalarType) (text : String)
  /-- A node is not built as its kind demands. -/
  | malformed (kind : NodeKind) (reason : String)
  deriving DecidableEq, Repr, Inhabited

/-- What a value of type `value` is called when a variable of type `target` cannot hold it. -/
def valueNoun (target value : ScalarType) : String :=
  if value = .bool then "boolean"
  else if target = .int && value = .float then "float"
  else "number"

/-- The wording of a cause. -/
def Cause.message : Cause → String
  | alreadyDeclared name => "variable '" ++ name ++ "' already declared"
  | undeclared name => "variable '" ++ name ++ "' not declared"
  | consecutiveMinus => "consecutive unary minus not allowed"
  | incompatible target value text =>
    "cannot assign " ++ valueNoun target value ++ " '" ++ text ++ "' to " ++ target.name ++
      " variable"
  | malformed kind reason => "malformed " ++ kind.name ++ " node: " ++ reason

end Diagnostic

/-- A diagnostic: what is wrong, and where. -/
structure Diagnostic where
  cause : Diagnostic.Cause
  position : Option Position
  deriving DecidableEq, Repr, Inhabited

/-- The text of a diagnostic: the cause, then the position in parentheses. -/
def Diagnostic.message (d : Diagnostic) : String :=
  d.cause.message ++ " (" ++ Position.text d.position ++ ")"

end ScalarLang
