import ScalarLang.Analysis.Statement

/-!
# Verdicts

What analysis says of a program: that it is rejected for one fatal reason, that it has errors, or
that it is accepted and what it then is. In every case the variables are listed that were declared
when analysis stopped.
-/

namespace ScalarLang

/-- The result of analysing a program. -/
structure Verdict where
  program : Option Program
  errors : List Diagnostic
  fatal : Option Diagnostic
  symbols : SymbolTable
  deriving DecidableEq, Repr, Inhabited

namespace Verdict

/-- A program rejected for one reason. -/
def ofFatal (diagnostic : Diagnostic) (symbols : SymbolTable) : Verdict :=
  ⟨none, [], some diagnostic, symbols⟩

/-- A program analysed to its end: accepted unless something was reported. -/
def ofStatements (statements : List Expr) (errors : List Diagnostic) (symbols : SymbolTable) :
    Verdict :=
  if errors.isEmpty then ⟨some ⟨statements⟩, [], none, symbols⟩ else ⟨none, errors, none, symbols⟩

/-- The verdict on a tree. There is none if analysis would have to read a missing node. -/
def ofTree? : Tree → Option Verdict
  | .node .program _ _ statements =>
    let run := Analysis.run .initial statements
    match run.result with
    | .ok (statements, errors) => some (ofStatements statements errors run.state.symbols)
    | .error (.fatal diagnostic) => some (ofFatal diagnostic run.state.symbols)
    | .error .missingNode => none
  | t => some (ofFatal ⟨.malformed t.kind "expected a program", t.position⟩ .empty)

/-- Whether the program is rejected. -/
def rejected (v : Verdict) : Bool :=
  v.fatal.isSome || !v.errors.isEmpty

/-- The texts of what is reported. A fatal diagnostic is reported alone. -/
def messages (v : Verdict) : List String :=
  match v.fatal with
  | some diagnostic => [diagnostic.message]
  | none => v.errors.map (·.message)

end Verdict

end ScalarLang
