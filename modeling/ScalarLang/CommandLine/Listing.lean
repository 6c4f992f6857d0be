import ScalarLang.SymbolTable

/-!
# Listing of symbols

One line for each variable: its name, its type and its position. The first two columns are as
wide as their longest cell, counted in characters, and two blanks.
-/

namespace ScalarLang.CommandLine

/-- Fills a text with blanks up to a width. -/
def padTo (width : Nat) (text : String) : String :=
  text ++ String.ofList (List.replicate (width - text.length) ' ')

/-- The greatest length of some texts. -/
def widest (texts : List String) : Nat :=
  (texts.map (·.length)).foldl max 0

/-- The listing of a table of symbols. -/
def listing (table : SymbolTable) : String :=
  let names := widest (table.symbols.map (·.name)) + 2
  let types := widest (table.symbols.map (·.type.name)) + 2
  String.join (table.symbols.map fun symbol =>
    padTo names symbol.name ++ padTo types symbol.type.name ++ Position.text symbol.position ++ "\n")

end ScalarLang.CommandLine
