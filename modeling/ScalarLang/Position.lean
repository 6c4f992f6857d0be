/-!
# Positions in a source

A position is a line and a column. The first character of a source stands at line 1, column 1; a
line feed starts a new line and every other character, a carriage return included, takes one
column. Syntax built by hand may have no position at all.
-/

namespace ScalarLang

/-- A line and a column. -/
structure Position where
  line : Int
  column : Int
  deriving DecidableEq, Repr, Inhabited

namespace Position

/-- Where the first character of a source stands. -/
def start : Position := ⟨1, 1⟩

/-- Where the character after `c` stands when `c` stands at `p`. -/
def advance (p : Position) (c : Char) : Position :=
  if c = '\n' then ⟨p.line + 1, 1⟩ else ⟨p.line, p.column + 1⟩

/-- Where the character after all of `cs` stands when the first of them stands at `p`. -/
def after (p : Position) (cs : List Char) : Position :=
  cs.foldl advance p

/-- The text of a position that may be unknown. -/
def text : Option Position → String
  | none => "?:?"
  | some p => s!"{p.line}:{p.column}"

end Position

end ScalarLang
