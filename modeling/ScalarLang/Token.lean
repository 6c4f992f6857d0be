import ScalarLang.Position

/-!
# Tokens

The words of a source. A comment is a token as well, and so is the end of a token stream: either
the end of the input or a lexical error, whose text is its message.
-/

namespace ScalarLang

namespace Token

/-- The kinds of tokens. -/
inductive Kind
  | error
  | endOfInput
  | number
  | boolean
  | identifier
  | typeName
  | plus
  | minus
  | times
  | divide
  | modulo
  | not
  | and
  | or
  | assign
  | semicolon
  | comment
  | openParen
  | closeParen
  deriving DecidableEq, Repr, Inhabited

end Token

/-- A token: its kind, its text, and where it starts. The text of a comment is what follows the
two slashes. -/
structure Token where
  kind : Token.Kind
  text : String
  position : Option Position
  deriving DecidableEq, Repr, Inhabited

namespace Token

/-- Whether a token stream ends with this token. -/
def isTerminal (t : Token) : Bool :=
  t.kind = .error || t.kind = .endOfInput

/-- Whether the token has no part in the syntax. -/
def isComment (t : Token) : Bool :=
  t.kind = .comment

end Token

end ScalarLang
