import ScalarLang.Proofs.Analysis.Extension
import ScalarLang.Proofs.Analysis.Relocation

/-!
# Analysis does not look into names

Analysis compares names and never looks into them, so it goes with every injective renaming
`σ : String → String`: of the variables in values, and of the names that are declared or assigned to.
Types, operators, literals and positions stay as they are.

What is reported of a value that cannot be stored is a literal or the name of a variable, in one text.
The name is renamed, the literal is not; `refused?` tells which of them it is.

The states of the two analyses are related by `State.Renamed`, a simulation: the second one knows of
the name `σ x` what the first one knows of `x`. The main steps are

* `expression_rename`, `resolve_rename`: a value and what is known of it;
* `statement_rename`: a statement;
* `run_rename`: a list of statements;
* `Verdict.rename_of_injective`: the verdict on a tree of any shape.
-/

namespace ScalarLang

variable (σ : String → String)

/-! ## Renaming -/

namespace Tree

/-- Renames the variables of a value. A node that does not have the children of its kind has no values
below it and stays as it is. -/
def renameValue : Tree → Tree
  | node .var name position children => node .var (σ name) position children
  | node .parens text position [inner] => node .parens text position [inner.renameValue]
  | node (.unary op) text position [operand] =>
    node (.unary op) text position [operand.renameValue]
  | node (.binary cls) text position [left, op, right] =>
    node (.binary cls) text position [left.renameValue, op, right.renameValue]
  | t => t

/-- Renames the text of a node. -/
def renameText : Tree → Tree
  | missing => missing
  | node kind text position children => node kind (σ text) position children

/-- Renames the variable that a statement declares or assigns to, and those of its value. -/
def renameStatement : Tree → Tree
  | node .declaration text position [type, name, value] =>
    node .declaration text position [type, name.renameText σ, value.renameValue σ]
  | node .assignment text position [name, value] =>
    node .assignment text position [name.renameText σ, value.renameValue σ]
  | t => t.renameValue σ

/-- Renames the variables of a program. -/
def rename : Tree → Tree
  | node .program text position statements =>
    node .program text position (statements.map (renameStatement σ))
  | t => t

@[simp] theorem kind_renameValue (t : Tree) : (t.renameValue σ).kind = t.kind := by
  fun_cases renameValue σ t <;> rfl

@[simp] theorem renameValue_eq_missing_iff (t : Tree) :
    t.renameValue σ = missing ↔ t = missing := by
  fun_cases renameValue σ t <;> simp

end Tree

/-- Renames the variables of an expression or statement. -/
def Expr.rename : Expr → Expr
  | number value isInteger => number value isInteger
  | boolean value => boolean value
  | var name => var (σ name)
  | parens inner => parens inner.rename
  | unary op operand => unary op operand.rename
  | binary op left right => binary op left.rename right.rename
  | declaration name type value => declaration (σ name) type value.rename
  | assignment name value => assignment (σ name) value.rename

/-- Renames the variables of a program. -/
def Program.rename (p : Program) : Program :=
  ⟨p.statements.map (Expr.rename σ)⟩

/-- Renames a declared variable. -/
def Symbol.rename (symbol : Symbol) : Symbol :=
  { symbol with name := σ symbol.name }

/-- Renames the declared variables. -/
def SymbolTable.rename (table : SymbolTable) : SymbolTable :=
  ⟨table.symbols.map (Symbol.rename σ)⟩

open Analysis in
/-- Renames what is wrong. If a value is refused, its text is renamed if it is the name of a variable
of which nothing but the type is known. -/
def Diagnostic.Cause.rename (refused : Option Operand) : Diagnostic.Cause → Diagnostic.Cause
  | alreadyDeclared name => alreadyDeclared (σ name)
  | undeclared name => undeclared (σ name)
  | consecutiveMinus => consecutiveMinus
  | malformed kind reason => malformed kind reason
  | incompatible target value text =>
    match refused with
    | some (.held _ _) => incompatible target value (σ text)
    | _ => incompatible target value text

open Analysis in
/-- Renames what a diagnostic is about. -/
def Diagnostic.rename (refused : Option Operand) (d : Diagnostic) : Diagnostic :=
  { d with cause := d.cause.rename σ refused }

/-! ## What is refused -/

namespace Analysis

/-- What is known of a value before it is stored. -/
def operand? (s : State) (value : Tree) : Option Operand :=
  match expression s.symbols value with
  | .error _ => none
  | .ok (v, _) => resolve s.symbols s.bindings v

/-- What is known of the value that a statement stores. -/
def storedOperand? (s : State) : Tree → Option Operand
  | .node .declaration _ _ [_, _, value] => operand? s value
  | .node .assignment _ _ [_, value] => operand? s value
  | _ => none

/-- What is known of the value that is stored by the statement in which the analysis ends. -/
def refused? (s : State) : List Tree → Option Operand
  | [] => none
  | t :: ts =>
    match statement s t with
    | .next s' _ _ => refused? s' ts
    | .halt s' _ => storedOperand? s' t

/-- Renames the reason for which the analysis ends. -/
def Halt.rename (refused : Option Operand) : Halt → Halt
  | .fatal diagnostic => .fatal (diagnostic.rename σ refused)
  | .missingNode => .missingNode

/-- Renames the result of an analysis. What is reported without an end is never that a value is
refused. -/
def renameResult {α : Type} (f : α → α) (refused : Option Operand) :
    Except Halt (α × List Diagnostic) → Except Halt (α × List Diagnostic)
  | .error reason => .error (reason.rename σ refused)
  | .ok (a, diagnostics) => .ok (f a, diagnostics.map (Diagnostic.rename σ none))

/-- Renames what is known of a value. -/
def Operand.rename : Operand → Operand
  | .literal value => .literal value
  | .held type name => .held type (σ name)

@[simp] theorem Operand.type_rename (operand : Operand) :
    (operand.rename σ).type = operand.type := by
  cases operand <;> rfl

/-- The second state knows of the new name of each variable what the first one knows of the old
one. -/
structure State.Renamed (s s' : State) : Prop where
  symbols : s'.symbols = s.symbols.rename σ
  bindings : ∀ name, s'.bindings (σ name) = s.bindings name

end Analysis

/-! ## Symbol tables -/

namespace SymbolTable

variable {σ} (hσ : Function.Injective σ) (table : SymbolTable) (name : String)

include hσ

theorem find?_rename :
    (table.rename σ).find? (σ name) = (table.find? name).map (Symbol.rename σ) := by
  unfold find? rename
  rw [List.find?_map]
  -- two new names are the same exactly if the old ones are
  have hname : (fun symbol : Symbol => decide (symbol.name = σ name)) ∘ Symbol.rename σ
      = fun symbol => decide (symbol.name = name) := by
    funext symbol
    exact decide_eq_decide.2 hσ.eq_iff
  rw [hname]

theorem typeOf?_rename : (table.rename σ).typeOf? (σ name) = table.typeOf? name := by
  rw [typeOf?, find?_rename hσ, Option.map_map]
  rfl

theorem declare?_rename (symbol : Symbol) :
    (table.rename σ).declare? (symbol.rename σ) = (table.declare? symbol).map (rename σ) := by
  have hfind : (table.rename σ).find? (symbol.rename σ).name
      = (table.find? symbol.name).map (Symbol.rename σ) := find?_rename hσ table symbol.name
  unfold declare?
  rw [hfind]
  cases table.find? symbol.name with
  | some other => rfl
  | none => simp [rename]

end SymbolTable

namespace Analysis

/-! ## Values -/

theorem isMinusOfAtom_rename (e : Expr) : isMinusOfAtom (e.rename σ) = isMinusOfAtom e := by
  cases e with
  | unary op operand => cases op <;> cases operand <;> rfl
  | _ => rfl

theorem unaryExpr_rename (op : UnaryOp) (operand : Expr) (position : Option Position)
    (refused : Option Operand) :
    unaryExpr op (operand.rename σ) position
      = ((unaryExpr op operand position).map (Expr.rename σ)).mapError (Halt.rename σ refused) := by
  unfold unaryExpr
  rw [isMinusOfAtom_rename]
  split_ifs <;> rfl

/-- What is wrong with an operator does not name a variable. -/
theorem rename_of_binaryOp {cls : BinaryClass} {op : Tree} {reason : Halt}
    (h : binaryOp cls op = .error reason) (refused : Option Operand) :
    reason.rename σ refused = reason := by
  unfold binaryOp at h
  split at h
  case h_1 | h_2 => cases h
  case h_5 => cases h; rfl
  all_goals
    split_ifs at h
    cases h
    rfl

section

variable {σ} (hσ : Function.Injective σ)

include hσ

/-- The analysis of a value goes with the names. -/
theorem expression_rename (symbols : SymbolTable) (t : Tree) (refused : Option Operand) :
    expression (symbols.rename σ) (t.renameValue σ)
      = renameResult σ (Expr.rename σ) refused (expression symbols t) := by
  fun_induction expression symbols t with
  | case1 => rfl
  | case2 text position children e he =>
    obtain ⟨value, -, rfl⟩ := Option.map_eq_some_iff.1 he
    simp only [Tree.renameValue, expression, he]
    rfl
  | case3 text position children he =>
    simp only [Tree.renameValue, expression, he]
    rfl
  | case4 text position children e he =>
    have hname : e.rename σ = e := by
      unfold booleanLiteral? at he
      split_ifs at he <;> cases he <;> rfl
    simp only [Tree.renameValue, expression, he, renameResult, hname, List.map_nil]
  | case5 text position children he =>
    simp only [Tree.renameValue, expression, he]
    rfl
  -- a variable is declared exactly if it is so under its new name
  | case6 name position children =>
    rw [Tree.renameValue, expression, SymbolTable.find?_rename hσ, Option.isSome_map]
    split_ifs <;> rfl
  | case7 text position inner ih =>
    rw [Tree.renameValue, expression, ih]
    cases expression symbols inner <;> rfl
  | case8 op text position operand ih =>
    rw [Tree.renameValue, expression, ih]
    cases expression symbols operand with
    | error reason => rfl
    | ok result =>
      simp only [renameResult, bind, Except.bind, unaryExpr_rename σ op result.1 position refused]
      cases unaryExpr op result.1 position <;> rfl
  | case9 cls text position left op right ihl ihr =>
    rw [Tree.renameValue, expression, ihl, ihr]
    cases expression symbols left with
    | error reason => rfl
    | ok l =>
      cases expression symbols right with
      | error reason => rfl
      | ok r =>
        simp only [renameResult, bind, Except.bind]
        cases hop : binaryOp cls op with
        | error reason => exact congrArg Except.error (rename_of_binaryOp σ hop refused).symm
        | ok operator => simp [pure, Except.pure, Expr.rename]
  -- a node without the children of its kind is left as it is
  | case10 text position children hchildren =>
    rw [Tree.renameValue, expression]
    · rfl
    all_goals grind
  | case11 op text position children hchildren =>
    rw [Tree.renameValue, expression]
    · rfl
    all_goals grind
  | case12 cls text position children hchildren =>
    rw [Tree.renameValue, expression]
    · rfl
    all_goals grind
  | case13 kind text position children =>
    rw [Tree.renameValue, expression]
    · rfl
    all_goals grind

theorem resolveVar_rename {s s' : State} (h : State.Renamed σ s s') (name : String) :
    resolveVar s'.symbols s'.bindings (σ name)
      = (resolveVar s.symbols s.bindings name).map (Operand.rename σ) := by
  unfold resolveVar
  rw [h.bindings, h.symbols, SymbolTable.typeOf?_rename hσ]
  cases s.bindings name with
  | some value => rfl
  | none => cases s.symbols.typeOf? name <;> rfl

/-- What is known of a value goes with the names. -/
theorem resolve_rename {s s' : State} (h : State.Renamed σ s s') (e : Expr) :
    resolve s'.symbols s'.bindings (e.rename σ)
      = (resolve s.symbols s.bindings e).map (Operand.rename σ) := by
  induction e with
  | var name => exact resolveVar_rename hσ h name
  | parens inner ih => exact ih
  | unary op operand ih =>
    cases op with
    | not => rfl
    | minus =>
      simp only [Expr.rename, resolve, ih]
      rcases resolve s.symbols s.bindings operand with _ | value | ⟨type, name⟩
      · rfl
      · simp only [Option.map_some, Operand.rename]
        split_ifs <;> rfl
      · rfl
  | number | boolean | binary | declaration | assignment => rfl

end

/-! ## Statements -/

/-- What a variable holds after it has been given a value does not depend on names. -/
theorem stored_rename (type : ScalarType) (operand : Option Operand) :
    stored type (operand.map (Operand.rename σ)) = stored type operand := by
  rcases operand with _ | value | ⟨held, name⟩ <;> rfl

/-- The second step is the first with all names renamed. What is refused depends on what is known
when the first one ends. -/
inductive Step.Renamed (refused : State → Option Operand) : Step → Step → Prop
  | next {s s' : State} (h : State.Renamed σ s s') (e : Expr) (diagnostics : List Diagnostic) :
      Step.Renamed refused (.next s e diagnostics)
        (.next s' (e.rename σ) (diagnostics.map (Diagnostic.rename σ none)))
  | halt {s s' : State} (h : State.Renamed σ s s') (reason : Halt) :
      Step.Renamed refused (.halt s reason) (.halt s' (reason.rename σ (refused s)))

theorem State.renamed_initial : State.Renamed σ .initial .initial :=
  ⟨rfl, fun _ => rfl⟩

section

variable {σ} (hσ : Function.Injective σ) {s s' : State} (h : State.Renamed σ s s')

include hσ h

theorem State.Renamed.store (name : String) (type : ScalarType) (value : Expr) :
    State.Renamed σ (s.store name type value) (s'.store (σ name) type (value.rename σ)) := by
  refine ⟨h.symbols, fun other => ?_⟩
  -- no other name becomes that of the variable
  simp only [State.store, Bindings.set, hσ.eq_iff, resolve_rename hσ h, stored_rename, h.bindings]

theorem State.Renamed.enter (name : String) (type : ScalarType) (position : Option Position) :
    State.Renamed σ (s.enter name type position) (s'.enter (σ name) type position) := by
  have hdeclare := SymbolTable.declare?_rename hσ s.symbols ⟨name, type, position⟩
  refine ⟨?_, h.bindings⟩
  show (s'.symbols.declare? (Symbol.rename σ ⟨name, type, position⟩)).getD s'.symbols
    = SymbolTable.rename σ ((s.symbols.declare? ⟨name, type, position⟩).getD s.symbols)
  rw [h.symbols, hdeclare, Option.getD_map]

/-- The text of a value that is refused is renamed if it is the name of a variable. -/
theorem incompatible?_rename (target : ScalarType) (value : Expr) (position : Option Position) :
    incompatible? s' target (value.rename σ) position
      = (incompatible? s target value position).map
          (Diagnostic.rename σ (resolve s.symbols s.bindings value)) := by
  unfold incompatible?
  rw [resolve_rename hσ h]
  rcases resolve s.symbols s.bindings value with _ | literal | ⟨type, name⟩
  · rfl
  -- a literal has its own text, and a variable its name
  all_goals
    simp only [Option.map_some, Operand.type_rename]
    split_ifs <;> rfl

theorem storable_rename (type : ScalarType) (position : Option Position) (value : Tree) :
    storable s' type position (value.renameValue σ)
      = renameResult σ (Expr.rename σ) (operand? s value) (storable s type position value) := by
  unfold storable
  rw [h.symbols, expression_rename hσ s.symbols value (operand? s value)]
  cases hvalue : expression s.symbols value with
  | error reason => rfl
  | ok result =>
    have hoperand : operand? s value = resolve s.symbols s.bindings result.1 := by
      rw [operand?, hvalue]
    simp only [renameResult, bind, Except.bind, incompatible?_rename hσ h, hoperand]
    cases incompatible? s type result.1 position <;> rfl

theorem declaration_rename (type : ScalarType) (name : String) (position : Option Position)
    (value : Tree) :
    Step.Renamed σ (operand? · value) (declaration s type name position value)
      (declaration s' type (σ name) position (value.renameValue σ)) := by
  have hnew : s'.symbols.find? (σ name) = none ↔ s.symbols.find? name = none := by
    rw [h.symbols, SymbolTable.find?_rename hσ, Option.map_eq_none_iff]
  -- the value is analysed, and the analysis may end, with the variable entered
  have hinner := h.enter hσ name type position
  rw [declaration_eq, declaration_eq, storable_rename hσ hinner]
  cases storable (s.enter name type position) type position value with
  | error reason => exact .halt hinner reason
  | ok result =>
    simp only [renameResult, hnew]
    split_ifs
    · exact .next (hinner.store hσ name type result.1) _ _
    · exact .next hinner (.declaration name type result.1)
        (⟨.alreadyDeclared name, position⟩ :: result.2)

theorem assignment_rename (name : String) (position : Option Position) (value : Tree) :
    Step.Renamed σ (operand? · value) (assignment s name position value)
      (assignment s' (σ name) position (value.renameValue σ)) := by
  rw [assignment_eq, assignment_eq, h.symbols, SymbolTable.typeOf?_rename hσ]
  cases s.symbols.typeOf? name with
  | none => exact .halt h (.fatal ⟨.undeclared name, position⟩)
  | some type =>
    simp only [storable_rename hσ h]
    cases storable s type position value with
    | error reason => exact .halt h reason
    | ok result => exact .next (h.store hσ name type result.1) (.assignment name result.1) result.2

/-- A declaration, be it built as it should or not. -/
theorem statement_declaration_rename (text : String) (position : Option Position)
    (children : List Tree) :
    Step.Renamed σ (storedOperand? · (.node .declaration text position children))
      (statement s (.node .declaration text position children))
      (statement s' ((Tree.node .declaration text position children).renameStatement σ)) := by
  by_cases hlength : children.length = 3
  · obtain ⟨type, name, value, rfl⟩ := List.length_eq_three.1 hlength
    rw [Tree.renameStatement]
    cases type with
    | missing => exact .halt h .missingNode
    | node kind keyword keywordPosition inner =>
      simp only [statement]
      cases ScalarType.ofName? keyword with
      | none => exact .halt h (malformed (.node kind keyword keywordPosition inner) _)
      | some type =>
        cases name with
        | missing => exact .halt h .missingNode
        | node nameKind name namePosition nameChildren =>
          exact declaration_rename hσ h type name namePosition value
  · have hsame : (Tree.node .declaration text position children).renameStatement σ
        = .node .declaration text position children := by
      rw [Tree.renameStatement, Tree.renameValue] <;> grind
    rw [hsame, statement_declaration_of_length s hlength, statement_declaration_of_length s' hlength]
    exact .halt h (malformed (.node .declaration text position children) _)

/-- An assignment, be it built as it should or not. -/
theorem statement_assignment_rename (text : String) (position : Option Position)
    (children : List Tree) :
    Step.Renamed σ (storedOperand? · (.node .assignment text position children))
      (statement s (.node .assignment text position children))
      (statement s' ((Tree.node .assignment text position children).renameStatement σ)) := by
  by_cases hlength : children.length = 2
  · obtain ⟨name, value, rfl⟩ := List.length_eq_two.1 hlength
    rw [Tree.renameStatement]
    cases name with
    | missing => exact .halt h .missingNode
    | node kind name namePosition nameChildren =>
      exact assignment_rename hσ h name namePosition value
  · have hsame : (Tree.node .assignment text position children).renameStatement σ
        = .node .assignment text position children := by
      rw [Tree.renameStatement, Tree.renameValue] <;> grind
    rw [hsame, statement_assignment_of_length s hlength, statement_assignment_of_length s' hlength]
    exact .halt h (malformed (.node .assignment text position children) _)

/-- The analysis of a statement goes with the names. -/
theorem statement_rename (t : Tree) :
    Step.Renamed σ (storedOperand? · t) (statement s t) (statement s' (t.renameStatement σ)) := by
  cases t with
  | missing => exact .halt h (malformed .missing _)
  | node kind text position children =>
    by_cases hdeclaration : kind = .declaration
    · subst hdeclaration
      exact statement_declaration_rename hσ h text position children
    by_cases hassignment : kind = .assignment
    · subst hassignment
      exact statement_assignment_rename hσ h text position children
    -- every other tree is analysed as an expression
    have hsame : (Tree.node kind text position children).renameStatement σ
        = (Tree.node kind text position children).renameValue σ := by
      rw [Tree.renameStatement] <;> grind
    have hvalue := expression_rename hσ s.symbols (.node kind text position children)
      (storedOperand? s (.node kind text position children))
    rw [hsame, statement_eq_of_kind (t := .node kind text position children) Tree.noConfusion
        hdeclaration hassignment,
      statement_eq_of_kind (t := (Tree.node kind text position children).renameValue σ)
        (by simp) (by simpa) (by simpa), h.symbols, hvalue]
    cases expression s.symbols (.node kind text position children) with
    | error reason => exact .halt h reason
    | ok result => exact .next h result.1 result.2

end

/-! ## Lists of statements -/

section

variable {σ} (hσ : Function.Injective σ)

include hσ

/-- The analysis of statements goes with the names. -/
theorem run_rename {s s' : State} (h : State.Renamed σ s s') (ts : List Tree) :
    State.Renamed σ (run s ts).state (run s' (ts.map (Tree.renameStatement σ))).state ∧
      (run s' (ts.map (Tree.renameStatement σ))).result
        = renameResult σ (List.map (Expr.rename σ)) (refused? s ts) (run s ts).result := by
  -- the two runs go through related states, and end in the same statement if they end early
  induction ts generalizing s s' with
  | nil => exact ⟨h, rfl⟩
  | cons t ts ih =>
    have hstep := statement_rename hσ h t
    rw [List.map_cons, run, run, refused?]
    generalize statement s t = step at hstep
    generalize statement s' (t.renameStatement σ) = step' at hstep
    cases hstep with
    | halt hend reason => exact ⟨hend, rfl⟩
    | next hnext e diagnostics =>
      obtain ⟨hstate, hresult⟩ := ih hnext
      refine ⟨hstate, ?_⟩
      simp only [Run.cons, hresult]
      cases (run _ ts).result with
      | error reason => rfl
      | ok result => simp [renameResult, Except.map]

end

/-! ## What is refused is reported -/

/-- Nothing but the type is known of a variable to which a value is traced. -/
theorem bindings_of_resolve_eq_held {symbols : SymbolTable} {bindings : Bindings} {e : Expr}
    {type : ScalarType} {name : String} (h : resolve symbols bindings e = some (.held type name)) :
    bindings name = none ∧ symbols.typeOf? name = some type := by
  induction e with
  | var x =>
    rw [resolve, resolveVar] at h
    split at h
    · simp at h
    next hx =>
      obtain ⟨type', htype, ⟨⟩⟩ := Option.map_eq_some_iff.1 h
      exact ⟨hx, htype⟩
  | parens inner ih => exact ih h
  | unary op operand =>
    cases op with
    | not => cases h
    | minus =>
      rw [resolve] at h
      split at h
      · split_ifs at h
        cases h
      · cases h
  | number | boolean => cases h
  | binary | declaration | assignment => cases h

theorem storedOperand?_of_stores {s s' : State} {t value : Tree} {target : ScalarType}
    {position : Option Position} (h : Stores s t s' target position value) :
    storedOperand? s' t = operand? s' value := by
  cases h with
  | declaration h => cases h; rfl
  | assignment h => cases h; rfl

/-- If the analysis ends because a value cannot be stored, it is what is known of this value that is
reported. -/
theorem exists_refused?_of_incompatible {s : State} {ts : List Tree} {target type : ScalarType}
    {text : String} {position : Option Position}
    (h : (run s ts).result = .error (.fatal ⟨.incompatible target type text, position⟩)) :
    ∃ e operand, refused? s ts = some operand ∧
      resolve (run s ts).state.symbols (run s ts).state.bindings e = some operand ∧
        operand.type = type ∧ operand.text = text := by
  induction ts generalizing s with
  | nil => cases h
  | cons t ts ih =>
    rw [run] at h ⊢
    rw [refused?]
    cases hstep : statement s t with
    | halt s' reason =>
      simp only [hstep, Except.error.injEq] at h ⊢
      subst h
      obtain ⟨value, v, diagnostics, hstores, hvalue, hreport⟩ :=
        exists_stores_of_incompatible hstep
      obtain ⟨operand, hoperand, -, hd⟩ := incompatible?_eq_some_iff.1 hreport
      simp only [Diagnostic.mk.injEq, Diagnostic.Cause.incompatible.injEq] at hd
      refine ⟨v, operand, ?_, hoperand, hd.1.2.1.symm, hd.1.2.2.symm⟩
      rw [storedOperand?_of_stores hstores, operand?, hvalue]
      exact hoperand
    | next s' e diagnostics =>
      simp only [hstep] at h ⊢
      exact ih (Run.cons_eq_error_iff.1 h)

/-- What is known when the analysis of a tree ends. -/
def finalState : Tree → State
  | .node .program _ _ statements => (run .initial statements).state
  | _ => .initial

/-- What is known of the value stored by the statement of a program in which its analysis ends. -/
def refusedIn? : Tree → Option Operand
  | .node .program _ _ statements => refused? .initial statements
  | _ => none

end Analysis

/-! ## Verdicts -/

namespace Verdict

open Analysis (Operand refusedIn? finalState)

/-- Renames the variables of a verdict. -/
def rename (refused : Option Operand) (v : Verdict) : Verdict where
  program := v.program.map (Program.rename σ)
  errors := v.errors.map (Diagnostic.rename σ none)
  fatal := v.fatal.map (Diagnostic.rename σ refused)
  symbols := v.symbols.rename σ

theorem ofStatements_rename (refused : Option Operand) (es : List Expr) (errors : List Diagnostic)
    (table : SymbolTable) :
    ofStatements (es.map (Expr.rename σ)) (errors.map (Diagnostic.rename σ none)) (table.rename σ)
      = (ofStatements es errors table).rename σ refused := by
  unfold ofStatements
  cases errors <;> rfl

/-- A tree of another kind than a program is malformed. -/
theorem ofTree?_of_kind_ne {kind : NodeKind} (h : kind ≠ .program) (text : String)
    (position : Option Position) (children : List Tree) :
    ofTree? (.node kind text position children)
      = some (ofFatal ⟨.malformed kind "expected a program", position⟩ .empty) := by
  unfold ofTree?
  split
  next hroot => exact absurd (Tree.node.inj hroot).1 h
  next => rfl

/-- The verdict on a tree goes with the names. -/
theorem ofTree?_rename {σ : String → String} (hσ : Function.Injective σ) (t : Tree) :
    ofTree? (t.rename σ) = (ofTree? t).map (rename σ (refusedIn? t)) := by
  cases t with
  | missing => rfl
  | node kind text position children =>
    by_cases hkind : kind = .program
    · subst hkind
      obtain ⟨hstate, hresult⟩ := Analysis.run_rename hσ (Analysis.State.renamed_initial σ) children
      simp only [Tree.rename, ofTree?, refusedIn?, hstate.symbols, hresult]
      cases (Analysis.run .initial children).result with
      | error reason => cases reason <;> rfl
      | ok result => exact congrArg some (ofStatements_rename σ _ _ _ _)
    · -- in any other tree there is nothing to rename
      have hsame : (Tree.node kind text position children).rename σ
          = .node kind text position children := by
        rw [Tree.rename]
        simp [hkind]
      rw [hsame, ofTree?_of_kind_ne hkind]
      rfl

/-- The verdict on a tree goes with the names. The text of a value that its variable cannot hold is a
literal, which stays, or the name of a variable that is not known to hold any literal. -/
theorem rename_of_injective {σ : String → String} (hσ : Function.Injective σ) (t : Tree) :
    ofTree? (t.rename σ) = (ofTree? t).map (rename σ (refusedIn? t)) ∧
      ∀ v target type text position, ofTree? t = some v →
        v.fatal = some ⟨.incompatible target type text, position⟩ →
          refusedIn? t = some (.literal ⟨type, text⟩) ∨
            refusedIn? t = some (.held type text) ∧ (finalState t).bindings text = none ∧
              v.symbols.typeOf? text = some type := by
  refine ⟨ofTree?_rename hσ t, ?_⟩
  intro v target type text position hv hfatal
  cases outcome_of_ofTree? hv with
  | completed => simp at hfatal
  | stopped hrun =>
    cases hfatal
    obtain ⟨e, operand, hrefused, hoperand, rfl, rfl⟩ :=
      Analysis.exists_refused?_of_incompatible hrun
    cases operand with
    | literal value => exact .inl hrefused
    | held type name => exact .inr ⟨hrefused, Analysis.bindings_of_resolve_eq_held hoperand⟩
  | malformed => cases hfatal

/-- Two programs with a letter put in front of all names. In both a truth value is to be stored in a
variable for integers: in the first the value of a variable that is not known to hold any literal, in
the second that of a variable that holds the literal `true`. -/
theorem rename_of_injective_sample :
    let token text := Tree.leaf .token text none
    let truth := Tree.leaf .boolean "true" none
    let unknown := Tree.node (.binary .conjunction) "" none [truth, token "&&", truth]
    let program value := Tree.node .program "" none
      [.node .declaration "" none [token "bool", token "a", value],
        .node .declaration "" none [token "int", token "b", .leaf .var "a" none]]
    let σ := ("x" ++ · : String → String)
    Function.Injective σ ∧
      (ofTree? ((program unknown).rename σ)).bind fatal
        = some ⟨.incompatible .int .bool "xa", none⟩ ∧
      (finalState (program unknown)).bindings "a" = none ∧
      (ofTree? ((program truth).rename σ)).bind fatal
        = some ⟨.incompatible .int .bool "true", none⟩ := by
  intro token truth unknown program σ
  have hσ : Function.Injective σ := by
    intro x y h
    simpa [σ] using h
  have hfatal : (ofTree? (program unknown)).bind fatal
      = some ⟨.incompatible .int .bool "a", none⟩ := by decide +kernel
  obtain ⟨v, hv, hvfatal⟩ := Option.bind_eq_some_iff.1 hfatal
  refine ⟨hσ, ?_, ?_, ?_⟩
  · rw [(rename_of_injective hσ (program unknown)).1]
    decide +kernel
  · rcases (rename_of_injective hσ (program unknown)).2 v _ _ _ _ hv hvfatal with
      hliteral | ⟨-, hbindings, -⟩
    · exact absurd hliteral (by decide +kernel)
    · exact hbindings
  · rw [(rename_of_injective hσ (program truth)).1]
    decide +kernel

end Verdict

end ScalarLang
