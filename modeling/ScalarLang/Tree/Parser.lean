import ScalarLang.SyntaxError
import ScalarLang.Token
import ScalarLang.Tree

/-!
# Parsing

A pushdown automaton that reads one token at a time. Between tokens it is in a phase of the
current statement; inside an expression the phase holds a stack of what is still open: parentheses,
unary operators that wait for their operand, and left operands with the operator after them.

A statement ends at its semicolon. The first token that cannot continue a statement is reported,
and everything up to and including the next semicolon is then skipped, so that each stretch of
tokens up to a semicolon gives one outcome: its tree or one error. Comments are passed over. The
automaton stops at the first token that ends the stream.

* `Parser.Phase.step` is the transition on one token.
* `Parse.ofTokens` reads a whole token list.
-/

namespace ScalarLang

namespace Parser

/-- What is open around the operand that is being read. -/
inductive Frame
  /-- A parenthesis. -/
  | parens (position : Option Position)
  /-- A unary operator. -/
  | unary (op : UnaryOp) (position : Option Position)
  /-- A left operand and a binary operator. -/
  | binary (cls : BinaryClass) (left : Tree) (op : Token)
  deriving Repr, Inhabited

/-- What an expression is read for. -/
inductive Purpose
  /-- A statement of its own. -/
  | statement
  /-- The value of a declared variable. -/
  | declaration (type name : Token)
  /-- The new value of a variable. -/
  | assignment (name : String) (position : Option Position)
  deriving Repr, Inhabited

/-- The statement that an expression completes. -/
def Purpose.complete : Purpose → Tree → Tree
  | statement, value => value
  | declaration type name, value =>
    .node .declaration "" type.position
      [.leaf .token type.text type.position, .leaf .token name.text name.position, value]
  | assignment name position, value =>
    .node .assignment "" position [.leaf .token name position, value]

/-- How far the current statement has been read. -/
inductive Phase
  /-- Nothing of it. -/
  | start
  /-- A type keyword. -/
  | typed (type : Token)
  /-- A type keyword and the name to be declared. -/
  | named (type name : Token)
  /-- An operand has to follow. -/
  | operand (purpose : Purpose) (stack : List Frame)
  /-- An operand has been read. -/
  | operator (purpose : Purpose) (stack : List Frame) (value : Tree)
  /-- An error has been reported, and the rest of the statement is skipped. -/
  | skipping
  deriving Repr, Inhabited

/-- The unary operator that a token can be. -/
def unaryOp? : Token.Kind → Option UnaryOp
  | .minus => some .minus
  | .not => some .not
  | _ => none

/-- The class of the binary operator that a token can be. -/
def binaryClass? : Token.Kind → Option BinaryClass
  | .or => some .disjunction
  | .and => some .conjunction
  | .plus | .minus => some .additive
  | .times | .divide | .modulo => some .multiplicative
  | _ => none

/-- The kind of the node that a token can be by itself. -/
def leafKind? : Token.Kind → Option NodeKind
  | .identifier => some .var
  | .number => some .number
  | .boolean => some .boolean
  | _ => none

/-- Applies the unary operators on top of the stack, innermost first. -/
def closeUnary : List Frame → Tree → List Frame × Tree
  | .unary op position :: stack, value =>
    closeUnary stack (.node (.unary op) "" position [value])
  | stack, value => (stack, value)

/-- Applies the binary operators on top of the stack that bind at least as tightly as `level`. -/
def closeBinary (level : Nat) : List Frame → Tree → List Frame × Tree
  | .binary cls left op :: stack, value =>
    if level ≤ cls.level then
      closeBinary level stack
        (.node (.binary cls) "" left.position [left, .leaf .token op.text op.position, value])
    else (.binary cls left op :: stack, value)
  | stack, value => (stack, value)

/-- Whether a parenthesis is open. -/
def hasParens : List Frame → Bool
  | [] => false
  | .parens _ :: _ => true
  | _ :: stack => hasParens stack

/-- What a token does to a phase. -/
inductive Move
  /-- The statement goes on. -/
  | next (phase : Phase)
  /-- The statement is complete. -/
  | complete (statement : Tree)
  /-- The token cannot continue the statement. -/
  | refuse
  deriving Repr, Inhabited

namespace Phase

/-- The phase after a complete operand. -/
def afterOperand (purpose : Purpose) (stack : List Frame) (value : Tree) : Phase :=
  let (stack, value) := closeUnary stack value
  operator purpose stack value

/-- A token where an operand has to follow. -/
def stepOperand (purpose : Purpose) (stack : List Frame) (t : Token) : Move :=
  match unaryOp? t.kind with
  | some op => .next (operand purpose (.unary op t.position :: stack))
  | none =>
    match leafKind? t.kind with
    | some kind => .next (afterOperand purpose stack (.leaf kind t.text t.position))
    | none =>
      if t.kind = .openParen then .next (operand purpose (.parens t.position :: stack))
      else .refuse

/-- A token other than an operator after a whole expression, inside parentheses or not. A
variable by itself turns into the target of an assignment. -/
def stepEnd (purpose : Purpose) (stack : List Frame) (value : Tree) (t : Token) : Move :=
  match stack with
  | .parens position :: stack =>
    if t.kind = .closeParen then
      .next (afterOperand purpose stack (.node .parens "" position [value]))
    else .refuse
  | _ =>
    match t.kind, purpose, value with
    | .semicolon, purpose, value => .complete (purpose.complete value)
    | .assign, .statement, .node .var name position _ =>
      .next (operand (.assignment name position) [])
    | _, _, _ => .refuse

/-- A token after a complete operand. -/
def stepOperator (purpose : Purpose) (stack : List Frame) (value : Tree) (t : Token) : Move :=
  match binaryClass? t.kind with
  | some cls =>
    let (stack, value) := closeBinary cls.level stack value
    .next (operand purpose (.binary cls value t :: stack))
  | none =>
    let (stack, value) := closeBinary 0 stack value
    stepEnd purpose stack value t

/-- What a token, neither a comment nor the end of the stream, does to a phase. -/
def step : Phase → Token → Move
  | start, t => if t.kind = .typeName then .next (typed t) else stepOperand .statement [] t
  | typed type, t => if t.kind = .identifier then .next (named type t) else .refuse
  | named type name, t =>
    if t.kind = .assign then .next (operand (.declaration type name) []) else .refuse
  | operand purpose stack, t => stepOperand purpose stack t
  | operator purpose stack value, t => stepOperator purpose stack value t
  | skipping, t => .next (if t.kind = .semicolon then start else skipping)

/-- The one thing that can follow a phase apart from operators, if it is no operand. -/
def expected? : Phase → Option Expectation
  | typed _ => some .identifier
  | named _ _ => some .assign
  | operator _ stack _ => some (if hasParens stack then .closeParen else .semicolon)
  | start | operand _ _ | skipping => none

/-- The error for a token that a phase refuses. -/
def refusal (phase : Phase) (t : Token) : SyntaxError :=
  match phase.expected? with
  | some expected => .located (.mismatched t.text expected) t.position
  | none => .located (.extraneous t.text) t.position

/-- The phase after a token has been refused and reported. -/
def recover (t : Token) : Phase :=
  if t.kind = .semicolon then start else skipping

/-- The error for the end of the input, unless a statement may end or be skipped there. -/
def endError? (phase : Phase) (position : Option Position) : Option SyntaxError :=
  match phase with
  | start | skipping => none
  | phase =>
    match phase.expected? with
    | some expected => some (.located (.missing expected) position)
    | none => some (.located .unexpectedEnd position)

/-- The error for the token that ends the stream. A lexical error is always reported, and nothing
else with it. -/
def terminalError? (phase : Phase) (t : Token) : Option SyntaxError :=
  if t.kind = .error then some (.located (.lexical t.text) t.position)
  else phase.endError? t.position

end Phase

end Parser

/-- The result of parsing: one outcome for each statement in order, and the tokens behind the one
that ended the stream. -/
structure Parse where
  outcomes : List (Except SyntaxError Tree)
  unread : List Token

namespace Parse

/-- Puts an outcome in front. -/
def cons (outcome : Except SyntaxError Tree) (p : Parse) : Parse :=
  { p with outcomes := outcome :: p.outcomes }

/-- Reads tokens from a given phase on. The end of the list is an end of input at an unknown
position. -/
def run : Parser.Phase → List Token → Parse
  | phase, [] => ⟨(phase.endError? none).toList.map .error, []⟩
  | phase, t :: ts =>
    if t.isComment then run phase ts
    else if t.isTerminal then ⟨(phase.terminalError? t).toList.map .error, ts⟩
    else
      match phase.step t with
      | .next phase => run phase ts
      | .complete statement => (run .start ts).cons (.ok statement)
      | .refuse => (run (Parser.Phase.recover t) ts).cons (.error (phase.refusal t))

/-- Reads a token list from the start of a program. -/
def ofTokens (ts : List Token) : Parse :=
  run .start ts

/-- The statements that could be read. -/
def statements (p : Parse) : List Tree :=
  p.outcomes.filterMap fun
    | .ok statement => some statement
    | .error _ => none

/-- The errors, in the order of their statements. -/
def errors (p : Parse) : List SyntaxError :=
  p.outcomes.filterMap fun
    | .ok _ => none
    | .error e => some e

/-- The program of all statements that could be read. -/
def tree (p : Parse) : Tree :=
  .node .program "" (some Position.start) p.statements

/-- How many tokens of `ts` were taken to parse it. -/
def consumed (ts : List Token) : Nat :=
  ts.length - (ofTokens ts).unread.length

end Parse

end ScalarLang
