import ScalarLang.Position
import ScalarLang.ScalarType

/-!
# Symbol tables

The variables that have been declared, in the order of their declarations. The first declaration
of a name counts; a later one is refused and changes nothing.
-/

namespace ScalarLang

/-- A declared variable: its name, its type, and where its name stands in the declaration. -/
structure Symbol where
  name : String
  type : ScalarType
  position : Option Position
  deriving DecidableEq, Repr, Inhabited

/-- The declared variables, the earliest first. -/
structure SymbolTable where
  symbols : List Symbol
  deriving DecidableEq, Repr, Inhabited

namespace SymbolTable

/-- The table without variables. -/
def empty : SymbolTable := ⟨[]⟩

/-- The variable with a given name. -/
def find? (table : SymbolTable) (name : String) : Option Symbol :=
  table.symbols.find? (·.name = name)

/-- The type of the variable with a given name. -/
def typeOf? (table : SymbolTable) (name : String) : Option ScalarType :=
  (table.find? name).map (·.type)

/-- The table with one more variable, unless its name is declared already. -/
def declare? (table : SymbolTable) (symbol : Symbol) : Option SymbolTable :=
  match table.find? symbol.name with
  | some _ => none
  | none => some ⟨table.symbols ++ [symbol]⟩

end SymbolTable

end ScalarLang
