import ScalarLang.Token
import ScalarLang.Text.Blank
import ScalarLang.Text.Digit
import ScalarLang.Text.Letter

/-!
# Cutting a source into tokens

From left to right, blanks are stepped over and the longest lexeme at each other character becomes
a token. Lexing ends at the end of the input or at the first character where no lexeme starts.

* `Lexeme.read` reads the one lexeme at a given character.
* `Lexing.ofChars` is the whole result: the tokens in order and how the stream ends.
-/

namespace ScalarLang

/-- Why no lexeme can be read. -/
inductive LexError
  /-- A character that starts no lexeme. -/
  | invalidSymbol (symbol : Char)
  /-- Digits and a point that no digit follows. -/
  | malformedNumber (chars : List Char)
  deriving DecidableEq, Repr, Inhabited

namespace LexError

/-- The characters that were read before the error showed. -/
def consumed : LexError → List Char
  | invalidSymbol symbol => [symbol]
  | malformedNumber chars => chars

/-- The wording of the error. -/
def message : LexError → String
  | invalidSymbol symbol => "invalid symbol '" ++ String.ofList [symbol] ++ "'"
  | malformedNumber chars => "malformed number '" ++ String.ofList chars ++ "'"

/-- The wording of an error together with its position. -/
def messageAt (e : LexError) (p : Position) : String :=
  e.message ++ " (" ++ Position.text (some p) ++ ")"

end LexError

/-- What stands between two token boundaries, its first character apart. -/
structure Lexeme where
  kind : Token.Kind
  /-- The characters of the lexeme after its first one. -/
  tail : List Char
  deriving DecidableEq, Repr, Inhabited

namespace Lexeme

/-- Whether `c` can start a name or a keyword. -/
def isWordStart (c : Char) : Bool :=
  Text.isLetter c || c = '_'

/-- Whether `c` can continue a name or a keyword. -/
def isWordPart (c : Char) : Bool :=
  Text.isLetter c || Text.isDecimalDigit c || c = '_'

/-- The kind of a word: five words are keywords, all others are names. -/
def wordKind (word : String) : Token.Kind :=
  if word = "int" || word = "float" || word = "bool" then .typeName
  else if word = "true" || word = "false" then .boolean
  else .identifier

/-- The kind of an operator of one character. -/
def operatorKind? : Char → Option Token.Kind
  | '+' => some .plus
  | '-' => some .minus
  | '*' => some .times
  | '/' => some .divide
  | '%' => some .modulo
  | '!' => some .not
  | '=' => some .assign
  | ';' => some .semicolon
  | '(' => some .openParen
  | ')' => some .closeParen
  | _ => none

/-- A number that starts with the digit `c`: digits, and if a point follows them at least one
more digit. -/
def number (c : Char) (cs : List Char) : Except LexError Lexeme :=
  let whole := cs.takeWhile Char.isDigit
  match cs.dropWhile Char.isDigit with
  | '.' :: rest =>
    match rest.takeWhile Char.isDigit with
    | [] => .error (.malformedNumber (c :: whole ++ ['.']))
    | fraction => .ok ⟨.number, whole ++ '.' :: fraction⟩
  | _ => .ok ⟨.number, whole⟩

/-- A name or keyword that starts with `c`. -/
def word (c : Char) (cs : List Char) : Lexeme :=
  let tail := cs.takeWhile isWordPart
  ⟨wordKind (String.ofList (c :: tail)), tail⟩

/-- An operator or comment that starts with `c`. The operators of two characters go before the
shorter ones, and a comment ends before the next line feed. -/
def operator (c : Char) (cs : List Char) : Except LexError Lexeme :=
  match c, cs with
  | '&', '&' :: _ => .ok ⟨.and, ['&']⟩
  | '|', '|' :: _ => .ok ⟨.or, ['|']⟩
  | '/', '/' :: rest => .ok ⟨.comment, '/' :: rest.takeWhile (· != '\n')⟩
  | _, _ =>
    match operatorKind? c with
    | some kind => .ok ⟨kind, []⟩
    | none => .error (.invalidSymbol c)

/-- The lexeme that starts with the character `c`, which is no blank, and continues in `cs`. -/
def read (c : Char) (cs : List Char) : Except LexError Lexeme :=
  if c.isDigit then number c cs
  else if isWordStart c then .ok (word c cs)
  else operator c cs

/-- The text of the token for a lexeme that starts with `c`: the lexeme, and for a comment what
follows its two slashes. -/
def text (c : Char) (l : Lexeme) : String :=
  if l.kind = .comment then String.ofList (l.tail.drop 1) else String.ofList (c :: l.tail)

end Lexeme

/-- How a token stream ends, and where. -/
inductive Ending
  | endOfInput (position : Position)
  | failure (error : LexError) (position : Position)
  deriving DecidableEq, Repr, Inhabited

namespace Ending

/-- The last token of the stream. -/
def token : Ending → Token
  | endOfInput position => ⟨.endOfInput, "", some position⟩
  | failure error position => ⟨.error, error.message, some position⟩

/-- Where reading stopped. -/
def stop : Ending → Position
  | endOfInput position => position
  | failure error position => position.after error.consumed

end Ending

/-- The tokens of a source, comments included, and how the stream ends. -/
structure Lexing where
  tokens : List Token
  ending : Ending
  deriving DecidableEq, Repr, Inhabited

namespace Lexing

/-- Puts a token in front. -/
def cons (t : Token) (l : Lexing) : Lexing :=
  { l with tokens := t :: l.tokens }

/-- Lexes `cs`, whose first character stands at `p`, after stepping over the first `skip`
characters, which belong to a lexeme that has been read already. -/
def scan : Nat → Position → List Char → Lexing
  | _, p, [] => ⟨[], .endOfInput p⟩
  | skip + 1, p, c :: cs => scan skip (p.advance c) cs
  | 0, p, c :: cs =>
    if Text.isBlank c then scan 0 (p.advance c) cs
    else
      match Lexeme.read c cs with
      | .ok l => (scan l.tail.length (p.advance c) cs).cons ⟨l.kind, l.text c, some p⟩
      | .error e => ⟨[], .failure e p⟩

/-- Lexes a whole source. -/
def ofChars (cs : List Char) : Lexing :=
  scan 0 Position.start cs

/-- All tokens of the stream, the last one included. -/
def stream (l : Lexing) : List Token :=
  l.tokens ++ [l.ending.token]

/-- The tokens of a source without lexical error, or the error and where it is. -/
def toExcept (l : Lexing) : Except (LexError × Position) (List Token) :=
  match l.ending with
  | .endOfInput _ => .ok l.tokens
  | .failure error position => .error (error, position)

end Lexing

end ScalarLang
