/-!
# Scalar types

The three types that a variable can be declared with. A type built by hand may be another number,
which is no type: it has no name of its own and holds no values but those of the same number.
-/

namespace ScalarLang

/-- The type of a variable or value. -/
inductive ScalarType
  | int
  | float
  | bool
  /-- A number that stands for no type. -/
  | unknown (code : Int)
  deriving DecidableEq, Repr, Inhabited

namespace ScalarType

/-- The type with a given code. -/
def ofCode (code : Int) : ScalarType :=
  if code = 0 then int else if code = 1 then float else if code = 2 then bool else unknown code

/-- The code of a type. -/
def code : ScalarType → Int
  | int => 0
  | float => 1
  | bool => 2
  | unknown code => code

/-- The name of a type. -/
def name : ScalarType → String
  | int => "int"
  | float => "float"
  | bool => "bool"
  | unknown _ => "~invalid"

/-- The type with a given keyword. -/
def ofName? (name : String) : Option ScalarType :=
  if name = "int" then some int
  else if name = "float" then some float
  else if name = "bool" then some bool
  else none

/-- Whether a variable of type `t` can hold a value of type `value`: a variable of type `float`
holds values of every type, any other one holds its own. -/
def accepts (t value : ScalarType) : Bool :=
  t = value || t = float

end ScalarType

end ScalarLang
