import ScalarLang.Proofs.Analysis.Signature
import ScalarLang.Proofs.Analysis.Transition
import ScalarLang.Proofs.Syntax.Relocation
import ScalarLang.Verdict

/-!
# Analysis does not look at positions

Like the parser, analysis copies positions and never decides anything by them. If the positions in a
tree are changed by `f : Position → Option Position`, those of the diagnostics and of the declared
variables change in the same way, and all else stays. The module introduces what becomes of
diagnostics, symbol tables and verdicts (`Diagnostic.relocate f`, `SymbolTable.relocate f`,
`Verdict.relocate f`) and of the states, steps and results in between, and proves:

* `expression_relocate`, `statement_relocate`: one expression, one statement;
* `run_relocate`: a list of statements;
* `Verdict.ofTree?_relocate`: the verdict on any tree, built by the parser or not.
-/

namespace ScalarLang

variable (f : Position → Option Position)

@[simp] theorem Tree.kind_relocate (t : Tree) : (t.relocate f).kind = t.kind := by
  cases t <;> rfl

/-- The diagnostic at its new position. -/
def Diagnostic.relocate (d : Diagnostic) : Diagnostic :=
  { d with position := d.position.bind f }

/-- The variable, declared at its new position. -/
def Symbol.relocate (symbol : Symbol) : Symbol :=
  { symbol with position := symbol.position.bind f }

/-! ## Symbol tables -/

namespace SymbolTable

/-- The variables, declared at their new positions. -/
def relocate (table : SymbolTable) : SymbolTable :=
  ⟨table.symbols.map (Symbol.relocate f)⟩

variable (table : SymbolTable) (name : String)

/-- Names and types stay. -/
theorem signature_relocate : (table.relocate f).signature = table.signature := by
  simp [signature, relocate, Symbol.relocate]

theorem find?_relocate :
    (table.relocate f).find? name = (table.find? name).map (Symbol.relocate f) := by
  unfold find? relocate
  rw [List.find?_map]
  rfl

theorem declare?_relocate (symbol : Symbol) :
    (table.relocate f).declare? (symbol.relocate f) = (table.declare? symbol).map (relocate f) := by
  have hfind : (table.relocate f).find? (symbol.relocate f).name
      = (table.find? symbol.name).map (Symbol.relocate f) := table.find?_relocate f symbol.name
  unfold declare?
  rw [hfind]
  cases table.find? symbol.name with
  | some other => rfl
  | none => simp [relocate]

end SymbolTable

namespace Analysis

/-! ## Expressions -/

/-- The reason for an early end at its new position. -/
def Halt.relocate : Halt → Halt
  | .fatal diagnostic => .fatal (diagnostic.relocate f)
  | .missingNode => .missingNode

/-- The result of an analysis with all diagnostics at their new positions. -/
def relocateResult {α : Type} :
    Except Halt (α × List Diagnostic) → Except Halt (α × List Diagnostic)
  | .error reason => .error (reason.relocate f)
  | .ok (a, diagnostics) => .ok (a, diagnostics.map (Diagnostic.relocate f))

theorem malformed_relocate (t : Tree) (reason : String) :
    malformed (t.relocate f) reason = (malformed t reason).relocate f := by
  rw [malformed, Tree.kind_relocate, Tree.position_relocate]
  rfl

theorem unaryExpr_relocate (op : UnaryOp) (operand : Expr) (position : Option Position) :
    unaryExpr op operand (position.bind f)
      = (unaryExpr op operand position).mapError (Halt.relocate f) := by
  unfold unaryExpr
  split_ifs <;> rfl

theorem binaryOp_relocate (cls : BinaryClass) (op : Tree) :
    binaryOp cls (op.relocate f) = (binaryOp cls op).mapError (Halt.relocate f) := by
  cases op with
  | missing => cases cls <;> rfl
  | node kind text position children =>
    have hmalformed (reason : String) :=
      malformed_relocate f (.node kind text position children) reason
    rw [Tree.relocate_node] at hmalformed ⊢
    -- only the text of the operator is looked at
    cases cls with
    | conjunction | disjunction => rfl
    | additive | multiplicative =>
      simp only [binaryOp, hmalformed]
      split_ifs <;> rfl

/-- The analysis of an expression goes with the positions. -/
theorem expression_relocate (symbols : SymbolTable) (t : Tree) :
    expression (symbols.relocate f) (t.relocate f) = relocateResult f (expression symbols t) := by
  fun_induction expression symbols t with
  | case1 => rfl
  | case2 text position children e he =>
    rw [Tree.relocate_node, expression, he]
    rfl
  | case3 text position children he =>
    rw [Tree.relocate_node, expression, he, ← Tree.relocate_node, malformed_relocate]
    rfl
  | case4 text position children e he =>
    rw [Tree.relocate_node, expression, he]
    rfl
  | case5 text position children he =>
    rw [Tree.relocate_node, expression, he, ← Tree.relocate_node, malformed_relocate]
    rfl
  | case6 name position children =>
    rw [Tree.relocate_node, expression, SymbolTable.find?_relocate, Option.isSome_map]
    split_ifs <;> rfl
  | case7 text position inner ih =>
    rw [Tree.relocate_node, List.map_singleton, expression, ih]
    cases expression symbols inner <;> rfl
  | case8 op text position operand ih =>
    rw [Tree.relocate_node, List.map_singleton, expression, ih]
    cases expression symbols operand with
    | error reason => rfl
    | ok result =>
      simp only [relocateResult, bind, Except.bind, unaryExpr_relocate]
      cases unaryExpr op result.1 position <;> rfl
  | case9 cls text position left op right ihl ihr =>
    rw [Tree.relocate_node, List.map_cons, List.map_cons, List.map_singleton, expression, ihl, ihr]
    cases expression symbols left with
    | error reason => rfl
    | ok l =>
      cases expression symbols right with
      | error reason => rfl
      | ok r =>
        simp only [relocateResult, bind, Except.bind, binaryOp_relocate]
        cases binaryOp cls op with
        | error reason => rfl
        | ok operator => simp [Except.mapError, pure, Except.pure]
  -- the number of children does not change, so they are too few or too many as before
  | case10 text position children hchildren =>
    rw [Tree.relocate_node, expression, ← Tree.relocate_node, malformed_relocate]
    · rfl
    · simpa [List.map_eq_singleton_iff] using hchildren
  | case11 op text position children hchildren =>
    rw [Tree.relocate_node, expression, ← Tree.relocate_node, malformed_relocate]
    · rfl
    · simpa [List.map_eq_singleton_iff] using hchildren
  | case12 cls text position children hchildren =>
    rw [Tree.relocate_node, expression, ← Tree.relocate_node, malformed_relocate]
    · rfl
    · intro left op right hmap
      have hlength : children.length = 3 := by simpa using congrArg List.length hmap
      obtain ⟨l, o, r, rfl⟩ := List.length_eq_three.mp hlength
      exact hchildren l o r rfl
  | case13 kind text position children =>
    rw [Tree.relocate_node, expression, ← Tree.relocate_node, malformed_relocate]
    · rfl
    all_goals tauto

/-! ## Statements -/

/-- What is known, with the variables declared at their new positions. -/
def State.relocate (s : State) : State :=
  { s with symbols := s.symbols.relocate f }

/-- The analysis of a statement at its new position. -/
def Step.relocate : Step → Step
  | .next s e diagnostics => .next (s.relocate f) e (diagnostics.map (Diagnostic.relocate f))
  | .halt s reason => .halt (s.relocate f) (reason.relocate f)

variable (s : State)

/-- Nothing but positions changes in a state. -/
theorem State.alike_relocate : (s.relocate f).Alike s :=
  ⟨s.symbols.signature_relocate f, rfl⟩

theorem State.store_relocate (name : String) (type : ScalarType) (value : Expr) :
    (s.relocate f).store name type value = (s.store name type value).relocate f := by
  unfold State.store
  rw [resolve_congr (s.alike_relocate f)]
  rfl

theorem State.enter_relocate (name : String) (type : ScalarType) (position : Option Position) :
    (s.relocate f).enter name type (position.bind f) = (s.enter name type position).relocate f := by
  have hdeclare := s.symbols.declare?_relocate f ⟨name, type, position⟩
  unfold State.enter
  show State.mk (((s.symbols.relocate f).declare? (Symbol.relocate f ⟨name, type, position⟩)).getD
    (s.symbols.relocate f)) s.bindings = _
  rw [hdeclare, Option.getD_map]
  rfl

theorem incompatible?_relocate (target : ScalarType) (value : Expr) (position : Option Position) :
    incompatible? (s.relocate f) target value (position.bind f)
      = (incompatible? s target value position).map (Diagnostic.relocate f) := by
  unfold incompatible?
  rw [resolve_congr (s.alike_relocate f)]
  cases resolve s.symbols s.bindings value with
  | none => rfl
  | some operand =>
    dsimp only
    split_ifs <;> rfl

theorem storable_relocate (type : ScalarType) (position : Option Position) (value : Tree) :
    storable (s.relocate f) type (position.bind f) (value.relocate f)
      = relocateResult f (storable s type position value) := by
  have hvalue : expression (s.relocate f).symbols (value.relocate f)
      = relocateResult f (expression s.symbols value) := expression_relocate f s.symbols value
  unfold storable
  rw [hvalue]
  cases expression s.symbols value with
  | error reason => rfl
  | ok result =>
    simp only [relocateResult, bind, Except.bind, incompatible?_relocate]
    cases incompatible? s type result.1 position <;> rfl

theorem declaration_relocate (type : ScalarType) (name : String) (position : Option Position)
    (value : Tree) :
    declaration (s.relocate f) type name (position.bind f) (value.relocate f)
      = (declaration s type name position value).relocate f := by
  have hnew : (s.relocate f).symbols.find? name = none ↔ s.symbols.find? name = none := by
    show (s.symbols.relocate f).find? name = none ↔ _
    rw [SymbolTable.find?_relocate, Option.map_eq_none_iff]
  rw [declaration_eq, declaration_eq, State.enter_relocate, storable_relocate]
  cases storable (s.enter name type position) type position value with
  | error reason => rfl
  | ok result =>
    simp only [relocateResult, hnew, State.store_relocate]
    split_ifs <;> rfl

theorem assignment_relocate (name : String) (position : Option Position) (value : Tree) :
    assignment (s.relocate f) name (position.bind f) (value.relocate f)
      = (assignment s name position value).relocate f := by
  have htype : (s.relocate f).symbols.typeOf? name = s.symbols.typeOf? name :=
    SymbolTable.typeOf?_congr (s.symbols.signature_relocate f) name
  rw [assignment_eq, assignment_eq, htype]
  cases s.symbols.typeOf? name with
  | none => rfl
  | some type =>
    simp only [storable_relocate]
    cases storable s type position value with
    | error reason => rfl
    | ok result =>
      simp only [relocateResult, State.store_relocate]
      rfl

/-- A declaration with too few or too many children. -/
theorem statement_declaration_of_length {text : String} {position : Option Position}
    {children : List Tree} (h : children.length ≠ 3) :
    statement s (.node .declaration text position children)
      = .halt s (malformed (.node .declaration text position children)
          "expected type, identifier and value") := by
  unfold statement
  dsimp only
  split
  · exact absurd rfl h
  · exact absurd rfl h
  · rfl

/-- An assignment with too few or too many children. -/
theorem statement_assignment_of_length {text : String} {position : Option Position}
    {children : List Tree} (h : children.length ≠ 2) :
    statement s (.node .assignment text position children)
      = .halt s (malformed (.node .assignment text position children)
          "expected identifier and value") := by
  unfold statement
  dsimp only
  split
  · exact absurd rfl h
  · exact absurd rfl h
  · rfl

/-- A declaration, be it built as it should or not. -/
theorem statement_declaration_relocate (text : String) (position : Option Position)
    (children : List Tree) :
    statement (s.relocate f) ((Tree.node .declaration text position children).relocate f)
      = (statement s (.node .declaration text position children)).relocate f := by
  by_cases hlength : children.length = 3
  · obtain ⟨type, name, value, rfl⟩ := List.length_eq_three.1 hlength
    rw [Tree.relocate_node]
    cases type with
    | missing => rfl
    | node kind keyword keywordPosition inner =>
      simp only [List.map_cons, List.map_nil, Tree.relocate_node, statement]
      cases ScalarType.ofName? keyword with
      | none => rfl
      | some type =>
        cases name with
        | missing => rfl
        | node nameKind name namePosition nameChildren =>
          rw [Tree.relocate_node]
          exact declaration_relocate f s type name namePosition value
  · rw [statement_declaration_of_length s hlength, Tree.relocate_node,
      statement_declaration_of_length _ (by rwa [List.length_map])]
    rfl

/-- An assignment, be it built as it should or not. -/
theorem statement_assignment_relocate (text : String) (position : Option Position)
    (children : List Tree) :
    statement (s.relocate f) ((Tree.node .assignment text position children).relocate f)
      = (statement s (.node .assignment text position children)).relocate f := by
  by_cases hlength : children.length = 2
  · obtain ⟨name, value, rfl⟩ := List.length_eq_two.1 hlength
    rw [Tree.relocate_node]
    cases name with
    | missing => rfl
    | node kind name namePosition nameChildren =>
      simp only [List.map_cons, List.map_nil, Tree.relocate_node, statement]
      exact assignment_relocate f s name namePosition value
  · rw [statement_assignment_of_length s hlength, Tree.relocate_node,
      statement_assignment_of_length _ (by rwa [List.length_map])]
    rfl

/-- The analysis of a statement goes with the positions. -/
theorem statement_relocate (t : Tree) :
    statement (s.relocate f) (t.relocate f) = (statement s t).relocate f := by
  cases t with
  | missing => rfl
  | node kind text position children =>
    by_cases hdeclaration : kind = .declaration
    · subst hdeclaration
      exact statement_declaration_relocate f s text position children
    by_cases hassignment : kind = .assignment
    · subst hassignment
      exact statement_assignment_relocate f s text position children
    -- every other tree is analysed as an expression
    have hother (s : State) (position : Option Position) (children : List Tree) :=
      statement_eq_of_kind (s := s) (t := .node kind text position children) Tree.noConfusion
        hdeclaration hassignment
    have hvalue : expression (s.relocate f).symbols _ = _ :=
      expression_relocate f s.symbols (.node kind text position children)
    rw [Tree.relocate_node] at hvalue ⊢
    rw [hother, hother, hvalue]
    cases expression s.symbols (.node kind text position children) <;> rfl

/-! ## Lists of statements -/

/-- The analysis of statements at their new positions. -/
def Run.relocate (r : Run) : Run :=
  ⟨r.state.relocate f, relocateResult f r.result⟩

theorem Run.cons_relocate (e : Expr) (diagnostics : List Diagnostic) (r : Run) :
    (r.relocate f).cons e (diagnostics.map (Diagnostic.relocate f))
      = (r.cons e diagnostics).relocate f := by
  rcases r with ⟨s, reason | ⟨later, rest⟩⟩
  · rfl
  · simp [Run.relocate, Run.cons, relocateResult, Except.map]

/-- The analysis of statements goes with the positions. -/
theorem run_relocate (ts : List Tree) :
    run (s.relocate f) (ts.map (Tree.relocate f)) = (run s ts).relocate f := by
  induction ts generalizing s with
  | nil => rfl
  | cons t ts ih =>
    rw [List.map_cons, run, run, statement_relocate]
    cases statement s t with
    | halt s' reason => rfl
    | next s' e diagnostics =>
      simp only [Step.relocate, ih]
      exact Run.cons_relocate f e diagnostics (run s' ts)

end Analysis

/-! ## Verdicts -/

namespace Verdict

/-- The verdict with all diagnostics and variables at their new positions. -/
def relocate (v : Verdict) : Verdict where
  program := v.program
  errors := v.errors.map (Diagnostic.relocate f)
  fatal := v.fatal.map (Diagnostic.relocate f)
  symbols := v.symbols.relocate f

theorem ofStatements_relocate (es : List Expr) (errors : List Diagnostic) (table : SymbolTable) :
    ofStatements es (errors.map (Diagnostic.relocate f)) (table.relocate f)
      = (ofStatements es errors table).relocate f := by
  unfold ofStatements
  cases errors <;> rfl

/-- The verdict on a tree goes with the positions. -/
theorem ofTree?_relocate (t : Tree) :
    ofTree? (t.relocate f) = (ofTree? t).map (relocate f) := by
  cases t with
  | missing => rfl
  | node kind text position children =>
    rw [Tree.relocate_node]
    by_cases hkind : kind = .program
    · subst hkind
      have hrun := Analysis.run_relocate f .initial children
      have hinitial : Analysis.State.relocate f .initial = .initial := rfl
      rw [hinitial] at hrun
      simp only [ofTree?, hrun, Analysis.Run.relocate]
      cases (Analysis.run .initial children).result with
      | error reason => cases reason <;> rfl
      | ok result => exact congrArg some (ofStatements_relocate f _ _ _)
    · -- any other tree is malformed as it stands
      unfold ofTree?
      split
      next hroot => exact absurd (Tree.node.inj hroot).1 hkind
      next =>
        split
        next hroot => exact absurd (Tree.node.inj hroot).1 hkind
        next => rfl

end Verdict

end ScalarLang
