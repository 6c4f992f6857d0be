import ScalarLang.Analysis.Expression
import ScalarLang.Analysis.Operand

/-!
# Analysis of statements

Statements are analysed in order. Between two of them stands what has been declared and what the
variables are known to hold. A second declaration of a name is reported and analysis goes on; an
assignment to a name that is not declared, and a value that its variable cannot hold, end it.
-/

namespace ScalarLang.Analysis

/-- What is known between two statements. -/
structure State where
  symbols : SymbolTable
  bindings : Bindings

/-- What is known before the first statement. -/
def State.initial : State := ⟨.empty, .none⟩

/-- The analysis of one statement. -/
inductive Step
  /-- The statement is analysed. -/
  | next (state : State) (statement : Expr) (diagnostics : List Diagnostic)
  /-- Analysis ends in the statement, and this is what was known then. -/
  | halt (state : State) (reason : Halt)

/-- The report of a value that a variable of type `target` cannot hold, if it is known to be such
a value. -/
def incompatible? (s : State) (target : ScalarType) (value : Expr) (position : Option Position) :
    Option Diagnostic :=
  match resolve s.symbols s.bindings value with
  | none => none
  | some operand =>
    if target.accepts operand.type then none
    else some ⟨.incompatible target operand.type operand.text, position⟩

/-- What is known after the variable `name` of type `type` has been given a value. -/
def State.store (s : State) (name : String) (type : ScalarType) (value : Expr) : State :=
  { s with
    bindings := s.bindings.set name (stored type (resolve s.symbols s.bindings value)) }

/-- The declaration of `name`, whose value may read the variable that is being declared. Only the
first declaration of a name gives the variable a value. -/
def declaration (s : State) (type : ScalarType) (name : String) (position : Option Position)
    (value : Tree) : Step :=
  let declared := s.symbols.declare? ⟨name, type, position⟩
  let inner : State := { s with symbols := declared.getD s.symbols }
  match expression inner.symbols value with
  | .error reason => .halt inner reason
  | .ok (value, diagnostics) =>
    match incompatible? inner type value position with
    | some diagnostic => .halt inner (.fatal diagnostic)
    | none =>
      if declared.isSome then
        .next (inner.store name type value) (.declaration name type value) diagnostics
      else
        .next inner (.declaration name type value)
          (⟨.alreadyDeclared name, position⟩ :: diagnostics)

/-- The assignment of a value to `name`. -/
def assignment (s : State) (name : String) (position : Option Position) (value : Tree) : Step :=
  match s.symbols.typeOf? name with
  | none => .halt s (.fatal ⟨.undeclared name, position⟩)
  | some type =>
    match expression s.symbols value with
    | .error reason => .halt s reason
    | .ok (value, diagnostics) =>
      match incompatible? s type value position with
      | some diagnostic => .halt s (.fatal diagnostic)
      | none => .next (s.store name type value) (.assignment name value) diagnostics

/-- The analysis of the tree of a statement. -/
def statement (s : State) : Tree → Step
  | .missing => .halt s (malformed .missing "missing statement")
  | .node .declaration text position children =>
    match children with
    | [.missing, _, _] => .halt s .missingNode
    | [.node kind keyword keywordPosition inner, name, value] =>
      match ScalarType.ofName? keyword, name with
      | none, _ =>
        .halt s (malformed (.node kind keyword keywordPosition inner) s!"unknown type '{keyword}'")
      | some _, .missing => .halt s .missingNode
      | some type, .node _ name namePosition _ => declaration s type name namePosition value
    | _ =>
      .halt s (malformed (.node .declaration text position children)
        "expected type, identifier and value")
  | .node .assignment text position children =>
    match children with
    | [.missing, _] => .halt s .missingNode
    | [.node _ name namePosition _, value] => assignment s name namePosition value
    | _ =>
      .halt s (malformed (.node .assignment text position children)
        "expected identifier and value")
  | t =>
    match expression s.symbols t with
    | .error reason => .halt s reason
    | .ok (e, diagnostics) => .next s e diagnostics

/-- The analysis of a list of statements: what was known at its end, and either the reason why it
ended early or the statements with their diagnostics. -/
structure Run where
  state : State
  result : Except Halt (List Expr × List Diagnostic)

/-- Puts the analysis of a statement in front. -/
def Run.cons (statement : Expr) (diagnostics : List Diagnostic) (r : Run) : Run :=
  { r with result := r.result.map fun (statements, later) =>
      (statement :: statements, diagnostics ++ later) }

/-- Analyses statements in order, from what is known before the first of them. -/
def run (s : State) : List Tree → Run
  | [] => ⟨s, .ok ([], [])⟩
  | t :: ts =>
    match statement s t with
    | .halt s reason => ⟨s, .error reason⟩
    | .next s e diagnostics => (run s ts).cons e diagnostics

end ScalarLang.Analysis
