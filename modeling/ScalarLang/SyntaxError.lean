import ScalarLang.Position

/-!
# Syntax errors

Why a statement could not be read, and at which token that showed. An error that shows at a token
without position is reported at line 0, column 0.
-/

namespace ScalarLang

/-- What alone could have stood at the place of an error. -/
inductive Expectation
  | identifier
  | assign
  | semicolon
  | closeParen
  deriving DecidableEq, Repr, Inhabited

/-- How an expectation is worded. -/
def Expectation.text : Expectation → String
  | identifier => "an identifier"
  | assign => "'='"
  | semicolon => "';'"
  | closeParen => "')'"

namespace SyntaxError

/-- Why a statement could not be read. -/
inductive Cause
  /-- The token stream ended in a lexical error. -/
  | lexical (message : String)
  /-- The input ended where one thing alone could follow. -/
  | missing (expected : Expectation)
  /-- The input ended where an operand had to follow. -/
  | unexpectedEnd
  /-- A token stands where one other thing alone could follow. -/
  | mismatched (text : String) (expected : Expectation)
  /-- A token stands where an operand had to follow. -/
  | extraneous (text : String)
  deriving DecidableEq, Repr, Inhabited

/-- The wording of a cause. -/
def Cause.message : Cause → String
  | lexical message => message
  | missing expected => "missing " ++ expected.text ++ " at end of input"
  | unexpectedEnd => "unexpected end of input"
  | mismatched text expected => "mismatched input '" ++ text ++ "' expecting " ++ expected.text
  | extraneous text => "extraneous input '" ++ text ++ "'"

end SyntaxError

/-- A syntax error: its cause and its position. -/
structure SyntaxError where
  cause : SyntaxError.Cause
  position : Position
  deriving DecidableEq, Repr, Inhabited

namespace SyntaxError

/-- An error at a token whose position may be unknown. -/
def located (cause : Cause) (position : Option Position) : SyntaxError :=
  ⟨cause, position.getD ⟨0, 0⟩⟩

/-- The wording of an error without its position. -/
def message (e : SyntaxError) : String :=
  e.cause.message

/-- The line that reports an error. -/
def report (e : SyntaxError) : String :=
  s!"Syntax error: {e.message} (line {e.position.line}, column {e.position.column})."

end SyntaxError

end ScalarLang
