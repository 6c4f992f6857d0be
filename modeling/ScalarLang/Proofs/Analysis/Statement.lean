import ScalarLang.Analysis.Statement
import ScalarLang.Proofs.Analysis.Expression
import ScalarLang.Proofs.Syntax.Parsing

/-!
# When a statement is analysed to its end

Declarations and assignments treat their value alike: it is analysed, and then it must be one that
the variable can hold (`storable`). They differ in what is known around the value and after it.
-/

namespace ScalarLang.Analysis

variable {s s' : State} {type : ScalarType} {name : String} {position : Option Position} {e : Expr}
  {t value : Tree} {ts : List Tree}

/-- What is known in the value of a declaration. -/
def State.enter (s : State) (name : String) (type : ScalarType) (position : Option Position) :
    State :=
  { s with symbols := (s.symbols.declare? ⟨name, type, position⟩).getD s.symbols }

/-- The value that a variable of type `type` is given, if it can hold the value. -/
def storable (s : State) (type : ScalarType) (position : Option Position) (value : Tree) :
    Except Halt (Expr × List Diagnostic) := do
  let (v, diagnostics) ← expression s.symbols value
  match incompatible? s type v position with
  | some diagnostic => .error (.fatal diagnostic)
  | none => .ok (v, diagnostics)

/-- A declaration in terms of the value it stores. -/
theorem declaration_eq (s : State) (type : ScalarType) (name : String)
    (position : Option Position) (value : Tree) :
    declaration s type name position value =
      match storable (s.enter name type position) type position value with
      | .error reason => .halt (s.enter name type position) reason
      | .ok (v, diagnostics) =>
        if s.symbols.find? name = none then
          .next ((s.enter name type position).store name type v) (.declaration name type v)
            diagnostics
        else
          .next (s.enter name type position) (.declaration name type v)
            (⟨.alreadyDeclared name, position⟩ :: diagnostics) := by
  have hdeclared : (s.symbols.declare? ⟨name, type, position⟩).isSome = true ↔
      s.symbols.find? name = none := by
    unfold SymbolTable.declare?
    cases s.symbols.find? name <;> simp
  simp only [declaration, storable, State.enter, hdeclared]
  -- the table is the same on both sides, whether the name was new or not
  generalize (s.symbols.declare? ⟨name, type, position⟩).getD s.symbols = table
  cases expression table value with
  | error reason => rfl
  | ok result =>
    simp only [bind, Except.bind]
    cases incompatible? ⟨table, s.bindings⟩ type result.1 position <;> rfl

/-- An assignment in terms of the value it stores. -/
theorem assignment_eq (s : State) (name : String) (position : Option Position) (value : Tree) :
    assignment s name position value =
      match s.symbols.typeOf? name with
      | none => .halt s (.fatal ⟨.undeclared name, position⟩)
      | some type =>
        match storable s type position value with
        | .error reason => .halt s reason
        | .ok (v, diagnostics) => .next (s.store name type v) (.assignment name v) diagnostics := by
  unfold assignment storable
  cases s.symbols.typeOf? name with
  | none => rfl
  | some type =>
    cases expression s.symbols value with
    | error reason => rfl
    | ok result =>
      simp only [bind, Except.bind]
      cases incompatible? s type result.1 position <;> rfl

/-- When a value is stored. -/
theorem storable_eq_ok_iff {v : Expr} {diagnostics : List Diagnostic} :
    storable s type position value = .ok (v, diagnostics) ↔
      expression s.symbols value = .ok (v, diagnostics) ∧
        incompatible? s type v position = none := by
  rw [storable, bind_eq_ok_iff]
  constructor
  · rintro ⟨result, hvalue, h⟩
    cases hincompatible : incompatible? s type result.1 position with
    | some diagnostic => simp [hincompatible] at h
    | none =>
      simp only [hincompatible, Except.ok.injEq, Prod.mk.injEq] at h
      obtain ⟨rfl, rfl⟩ := h
      exact ⟨hvalue, hincompatible⟩
  · rintro ⟨hvalue, h⟩
    exact ⟨(v, diagnostics), hvalue, by simp only [h]⟩

/-- When a declaration is accepted. -/
theorem declaration_eq_next_iff :
    declaration s type name position value = .next s' e [] ↔
      s.symbols.find? name = none ∧
        ∃ v, storable (s.enter name type position) type position value = .ok (v, []) ∧
          e = .declaration name type v ∧ s' = (s.enter name type position).store name type v := by
  rw [declaration_eq]
  cases storable (s.enter name type position) type position value with
  | error reason => simp
  | ok result =>
    -- a name that is declared twice leaves a diagnostic, whatever its value
    by_cases hnew : s.symbols.find? name = none
    · simp only [hnew, if_true, Step.next.injEq, true_and, Except.ok.injEq]
      constructor
      · rintro ⟨rfl, rfl, hdiagnostics⟩
        exact ⟨result.1, Prod.ext rfl hdiagnostics, rfl, rfl⟩
      · rintro ⟨v, rfl, rfl, rfl⟩
        exact ⟨rfl, rfl, rfl⟩
    · simp [hnew]

/-- When an assignment is accepted. -/
theorem assignment_eq_next_iff :
    assignment s name position value = .next s' e [] ↔
      ∃ type v, s.symbols.typeOf? name = some type ∧
        storable s type position value = .ok (v, []) ∧ e = .assignment name v ∧
          s' = s.store name type v := by
  rw [assignment_eq]
  cases htype : s.symbols.typeOf? name with
  | none => simp
  | some type =>
    cases hvalue : storable s type position value with
    | error reason => simp [hvalue]
    | ok result =>
      simp only [hvalue, Step.next.injEq, Option.some.injEq]
      constructor
      · rintro ⟨rfl, rfl, hdiagnostics⟩
        refine ⟨type, result.1, rfl, ?_, rfl, rfl⟩
        rw [hvalue, ← hdiagnostics]
      · rintro ⟨_, v, rfl, hresult, rfl, rfl⟩
        rw [hvalue] at hresult
        cases hresult
        exact ⟨rfl, rfl, rfl⟩

/-- A tree that is neither a declaration nor an assignment is analysed as an expression. -/
theorem statement_eq_of_kind (hmissing : t ≠ .missing) (hdeclaration : t.kind ≠ .declaration)
    (hassignment : t.kind ≠ .assignment) :
    statement s t =
      match expression s.symbols t with
      | .error reason => .halt s reason
      | .ok (e, diagnostics) => .next s e diagnostics := by
  cases t with
  | missing => exact absurd rfl hmissing
  | node kind text position children =>
    cases kind <;> first | rfl | exact absurd rfl hdeclaration | exact absurd rfl hassignment

/-! ## Statements of the grammar -/

/-- A declaration of the grammar. -/
theorem statement_declaration (s : State) (type : Grammar.Terminal .typeName)
    (name : Grammar.Terminal .identifier) (assign : Grammar.Terminal .assign)
    (value : Grammar.Phrase .expression) {scalarType : ScalarType}
    (htype : ScalarType.ofName? type.val.text = some scalarType) :
    statement s (Grammar.Statement.declaration type name assign value).tree
      = declaration s scalarType name.val.text name.val.position value.tree := by
  simp only [Grammar.Statement.tree, Grammar.leaf, Tree.leaf, statement, htype]

/-- An assignment of the grammar. -/
theorem statement_assignment (s : State) (name : Grammar.Terminal .identifier)
    (assign : Grammar.Terminal .assign) (value : Grammar.Phrase .expression) :
    statement s (Grammar.Statement.assignment name assign value).tree
      = assignment s name.val.text name.val.position value.tree := rfl

/-- An expression of the grammar. -/
theorem statement_expression (s : State) (value : Grammar.Phrase .expression) :
    statement s (Grammar.Statement.expression value).tree =
      match expression s.symbols value.tree with
      | .error reason => .halt s reason
      | .ok (e, diagnostics) => .next s e diagnostics := by
  obtain ⟨hdeclaration, hassignment⟩ := value.kind_tree_ne_statement
  have hprogram : value.tree.kind ≠ .program := value.kind_tree_ne not_false
  have hmissing : value.tree ≠ .missing := fun h => hprogram (congrArg Tree.kind h)
  exact statement_eq_of_kind hmissing hdeclaration hassignment

/-- A declaration that is analysed to its end has a type that is read. -/
theorem exists_declaration_of_statement {type : Grammar.Terminal .typeName}
    {name : Grammar.Terminal .identifier} {assign : Grammar.Terminal .assign}
    {value : Grammar.Phrase .expression} {diagnostics : List Diagnostic}
    (h : statement s (Grammar.Statement.declaration type name assign value).tree
      = .next s' e diagnostics) :
    ∃ scalarType, ScalarType.ofName? type.val.text = some scalarType ∧
      declaration s scalarType name.val.text name.val.position value.tree
        = .next s' e diagnostics := by
  cases htype : ScalarType.ofName? type.val.text with
  | none => simp [Grammar.Statement.tree, Grammar.leaf, Tree.leaf, statement, htype] at h
  | some scalarType =>
    rw [statement_declaration s type name assign value htype] at h
    exact ⟨scalarType, rfl, h⟩

/-- An expression that is analysed to its end leaves what is known as it was. -/
theorem statement_expression_eq_next_iff {value : Grammar.Phrase .expression}
    {diagnostics : List Diagnostic} :
    statement s (Grammar.Statement.expression value).tree = .next s' e diagnostics ↔
      s' = s ∧ expression s.symbols value.tree = .ok (e, diagnostics) := by
  rw [statement_expression]
  cases expression s.symbols value.tree with
  | error reason => simp
  | ok result => simp [Prod.ext_iff, eq_comm]

/-! ## Lists of statements -/

/-- When the rest of a program is accepted. -/
theorem Run.cons_eq_iff {r : Run} {es : List Expr} {diagnostics : List Diagnostic} :
    r.cons e diagnostics = ⟨s', .ok (es, [])⟩ ↔
      diagnostics = [] ∧ ∃ later, r = ⟨s', .ok (later, [])⟩ ∧ es = e :: later := by
  rcases r with ⟨final, reason | ⟨later, others⟩⟩
  · simp [Run.cons, Except.map]
  · simp only [Run.cons, Except.map, Run.mk.injEq, Except.ok.injEq, Prod.mk.injEq,
      List.append_eq_nil_iff]
    constructor
    · rintro ⟨rfl, rfl, rfl, rfl⟩
      exact ⟨rfl, later, ⟨rfl, rfl, rfl⟩, rfl⟩
    · rintro ⟨rfl, _, ⟨rfl, rfl, rfl⟩, rfl⟩
      exact ⟨rfl, rfl, rfl, rfl⟩

/-- A statement in front keeps the reason for which the others end. -/
theorem Run.cons_eq_error_iff {r : Run} {diagnostics : List Diagnostic} {reason : Halt} :
    (r.cons e diagnostics).result = .error reason ↔ r.result = .error reason := by
  rcases r with ⟨s, reason' | result⟩ <;> simp [Run.cons, Except.map]

/-- When a list of statements is accepted. -/
theorem run_cons_eq_iff {es : List Expr} :
    run s (t :: ts) = ⟨s', .ok (es, [])⟩ ↔
      ∃ inner e later, statement s t = .next inner e [] ∧ run inner ts = ⟨s', .ok (later, [])⟩ ∧
        es = e :: later := by
  rw [run]
  cases statement s t with
  | halt inner reason => simp
  | next inner e diagnostics =>
    simp only [Run.cons_eq_iff, Step.next.injEq]
    constructor
    · rintro ⟨rfl, later, hrun, rfl⟩
      exact ⟨inner, e, later, ⟨rfl, rfl, rfl⟩, hrun, rfl⟩
    · rintro ⟨_, _, later, ⟨rfl, rfl, rfl⟩, hrun, rfl⟩
      exact ⟨rfl, later, hrun, rfl⟩

end ScalarLang.Analysis
