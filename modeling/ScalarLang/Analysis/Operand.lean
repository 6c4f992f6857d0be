import ScalarLang.Expr
import ScalarLang.SymbolTable

/-!
# What is known of a value

Before anything runs, the value of some expressions is known: literals, and variables that were
last given a literal. Of other variables the declared type is known. Of the results of operators
nothing is, the sign of a literal apart.
-/

namespace ScalarLang.Analysis

/-- A value that is known: its type and its text. -/
structure Literal where
  type : ScalarType
  text : String
  deriving DecidableEq, Repr, Inhabited

/-- The literal that each variable is known to hold. -/
abbrev Bindings := String → Option Literal

/-- No variable is known to hold anything. -/
def Bindings.none : Bindings := fun _ => Option.none

/-- The bindings after `name` has been given a value, known or not. -/
def Bindings.set (bindings : Bindings) (name : String) (value : Option Literal) : Bindings :=
  fun other => if other = name then value else bindings other

/-- What is known of a value: the value itself, or the variable that holds it and its type. -/
inductive Operand
  | literal (value : Literal)
  | held (type : ScalarType) (name : String)
  deriving DecidableEq, Repr, Inhabited

namespace Operand

/-- The type of the value. -/
def type : Operand → ScalarType
  | literal value => value.type
  | held type _ => type

/-- How the value is shown: the literal, or the name of the variable that holds it. -/
def text : Operand → String
  | literal value => value.text
  | held _ name => name

end Operand

/-- The text of a number with the other sign. -/
def negate (text : String) : String :=
  match text.toList with
  | '-' :: cs => String.ofList cs
  | cs => String.ofList ('-' :: cs)

/-- What is known of a variable. -/
def resolveVar (symbols : SymbolTable) (bindings : Bindings) (name : String) : Option Operand :=
  match bindings name with
  | some value => some (.literal value)
  | none => (symbols.typeOf? name).map fun type => .held type name

/-- What is known of the value of an expression. -/
def resolve (symbols : SymbolTable) (bindings : Bindings) : Expr → Option Operand
  | .number value isInteger =>
    some (.literal ⟨if isInteger then .int else .float, Expr.numberText value isInteger⟩)
  | .boolean value => some (.literal ⟨.bool, Expr.booleanText value⟩)
  | .var name => resolveVar symbols bindings name
  | .parens inner => resolve symbols bindings inner
  | .unary .minus operand =>
    match resolve symbols bindings operand with
    | some (.literal value) =>
      if value.type = .bool then none
      else some (.literal { value with text := negate value.text })
    | _ => none
  | _ => none

/-- What a variable of type `type` is known to hold after it has been given a value. An integer
in a variable of type `float` becomes a fraction; a truth value in a variable of another type
becomes unknown. -/
def stored (type : ScalarType) : Option Operand → Option Literal
  | some (.literal value) =>
    if value.type = .bool && type != .bool then none
    else if type = .float && value.type = .int then some ⟨type, value.text ++ ".0"⟩
    else some ⟨type, value.text⟩
  | _ => none

end ScalarLang.Analysis
