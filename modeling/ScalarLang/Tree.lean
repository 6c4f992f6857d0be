import ScalarLang.Position

/-!
# Syntax trees

What parsing produces and analysis reads. A node has a kind, a text, a position and children:

* a program has its statements as children;
* a declaration has the type keyword, the name and the value;
* an assignment has the name and the value;
* a binary operation has the left operand, the operator and the right operand;
* a unary operation and parentheses have the operand;
* a variable, a number, a boolean and a bare token have none, and their text is the source text.

Trees may also be built by hand, so nothing of this is forced: a tree may be missing where one is
expected, a kind may be an unknown number, and any node may have any children.
-/

namespace ScalarLang

/-- The operators of one operand. -/
inductive UnaryOp
  | minus
  | not
  deriving DecidableEq, Repr, Inhabited

/-- The classes of operators of two operands. Operators of one class bind equally tightly and
associate to the left. -/
inductive BinaryClass
  | disjunction
  | conjunction
  | additive
  | multiplicative
  deriving DecidableEq, Repr, Inhabited

/-- How tightly the operators of a class bind. -/
def BinaryClass.level : BinaryClass → Nat
  | disjunction => 0
  | conjunction => 1
  | additive => 2
  | multiplicative => 3

/-- The kinds of syntax nodes. -/
inductive NodeKind
  | program
  | declaration
  | assignment
  | var
  | number
  | boolean
  | parens
  | unary (op : UnaryOp)
  | binary (cls : BinaryClass)
  /-- A bare token inside a construct: a type keyword, a name that is written to, an operator. -/
  | token
  /-- A kind that no construct has. -/
  | unknown (code : Int)
  deriving DecidableEq, Repr, Inhabited

namespace NodeKind

/-- The kinds in the order of their codes, from zero. -/
def all : List NodeKind :=
  [program, declaration, assignment, var, number, boolean, parens, unary .minus, unary .not,
   binary .additive, binary .multiplicative, binary .conjunction, binary .disjunction, token]

/-- The kind with a given code. -/
def ofCode (code : Int) : NodeKind :=
  if code < 0 then unknown code else all.getD code.toNat (unknown code)

/-- The name of a kind. -/
def name : NodeKind → String
  | program => "Program"
  | declaration => "Declaration"
  | assignment => "Assignment"
  | var => "Variable"
  | number => "Number"
  | boolean => "Boolean"
  | parens => "Parens"
  | unary .minus => "UnaryMinus"
  | unary .not => "Not"
  | binary .additive => "AddSub"
  | binary .multiplicative => "MultDivMod"
  | binary .conjunction => "And"
  | binary .disjunction => "Or"
  | token => "Token"
  | unknown code => s!"NodeKind({code})"

/-- The kind with a given name. -/
def ofName? (name : String) : Option NodeKind :=
  all.find? (·.name = name)

end NodeKind

/-- A syntax tree, or the lack of one. -/
inductive Tree
  | missing
  | node (kind : NodeKind) (text : String) (position : Option Position) (children : List Tree)
  deriving Repr, Inhabited

namespace Tree

/-- A node without children. -/
def leaf (kind : NodeKind) (text : String) (position : Option Position) : Tree :=
  node kind text position []

/-- Where a tree starts. -/
def position : Tree → Option Position
  | missing => none
  | node _ _ position _ => position

/-- The kind of a tree; a missing one counts as the first kind. -/
def kind : Tree → NodeKind
  | missing => .program
  | node kind _ _ _ => kind

/-- The child at an index, which is missing if there is none at that index. There is no answer
if the children of a missing tree would have to be read; a negative index asks for none. -/
def child? (t : Tree) (index : Int) : Option Tree :=
  if index < 0 then some missing
  else
    match t with
    | missing => none
    | node _ _ _ children => some (children.getD index.toNat missing)

end Tree

end ScalarLang
