import ScalarLang.Text.Utf8
import ScalarLang.Token.Lexer
import ScalarLang.Tree.Parser
import ScalarLang.Verdict

/-!
# Reports

The whole way from the bytes of a source to what is to be said of it. A source with syntax errors
is not analysed.
-/

namespace ScalarLang

/-- What is to be said of a source: its syntax errors, or the verdict on its program. -/
structure Report where
  filename : String
  syntaxErrors : List SyntaxError
  verdict : Option Verdict
  deriving DecidableEq, Repr, Inhabited

/-- The syntax of a source. -/
def Parse.ofSource (source : List UInt8) : Parse :=
  .ofTokens (Lexing.ofChars (Utf8.decode source)).stream

namespace Report

/-- The report on the source in a file. A source that is in no file has the empty name. -/
def ofSource (filename : String) (source : List UInt8) : Report :=
  let parse := Parse.ofSource source
  if parse.errors.isEmpty then ⟨filename, [], Verdict.ofTree? parse.tree⟩
  else ⟨filename, parse.errors, none⟩

/-- Whether the source is rejected. -/
def rejected (r : Report) : Bool :=
  !r.syntaxErrors.isEmpty || r.verdict.any (·.rejected)

end Report

end ScalarLang
