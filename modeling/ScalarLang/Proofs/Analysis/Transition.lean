import ScalarLang.Proofs.Analysis.Statement
import ScalarLang.Verdict

/-!
# What a statement can do

A tree of any shape is a declaration, an assignment, an expression or not built as its kind demands
(`Transition`). The last of these ends the analysis where it stands. What the others do to what is
known, and how they may end the analysis for a value that cannot be stored, is derived from this
once and for all trees.

* `advance_of_statement`: how the analysis goes on behind a statement.
* `exists_of_run_cons_eq_ok`: how it goes through a list of statements.
* `exists_stores_of_incompatible`: where a value that cannot be stored is reported.
* `Verdict.outcome_of_ofTree?`: what the verdict on a tree says of the analysis of its statements.
-/

namespace ScalarLang.Analysis

/-- The tree declares a variable of the type of its keyword and gives it a value. -/
inductive Declares : Tree → String → ScalarType → Option Position → Tree → Prop
  | mk {text keyword name : String} {kind nameKind : NodeKind}
      {p keywordPosition position : Option Position} {keywordChildren nameChildren : List Tree}
      {type : ScalarType} (value : Tree) (h : ScalarType.ofName? keyword = some type) :
      Declares (.node .declaration text p [.node kind keyword keywordPosition keywordChildren,
        .node nameKind name position nameChildren, value]) name type position value

/-- The tree gives a variable a value. -/
inductive Assigns : Tree → String → Option Position → Tree → Prop
  | mk {text name : String} {kind : NodeKind} {p position : Option Position} {children : List Tree}
      (value : Tree) :
      Assigns (.node .assignment text p [.node kind name position children, value]) name position
        value

/-- What the analysis of a tree can be. -/
inductive Transition (s : State) (t : Tree) : Step → Prop
  | declaration {name : String} {type : ScalarType} {position : Option Position} {value : Tree}
      (h : Declares t name type position value) :
      Transition s t (declaration s type name position value)
  | assignment {name : String} {position : Option Position} {value : Tree}
      (h : Assigns t name position value) : Transition s t (assignment s name position value)
  | expression {e : Expr} {diagnostics : List Diagnostic}
      (h : expression s.symbols t = .ok (e, diagnostics)) : Transition s t (.next s e diagnostics)
  /-- The expression is not analysed to its end. -/
  | stop {reason : Halt} (h : Analysis.expression s.symbols t = .error reason) :
      Transition s t (.halt s reason)
  /-- The tree is not built as its kind demands. -/
  | malformed (inner : Tree) (text : String) : Transition s t (.halt s (malformed inner text))
  /-- The type or name of a declaration or assignment is missing. -/
  | missingNode : Transition s t (.halt s .missingNode)

/-- What is known when the analysis of a statement ends, early or not. -/
def Step.state : Step → State
  | .next s _ _ => s
  | .halt s _ => s

variable {s s' : State} {t value : Tree} {e : Expr} {diagnostics : List Diagnostic}

/-- The analysis of a statement is one of these. -/
theorem transition_statement (s : State) (t : Tree) : Transition s t (statement s t) := by
  unfold statement
  split
  · exact .malformed _ _
  · split
    · exact .missingNode
    · split
      next => exact .malformed _ _
      next => exact .missingNode
      next htype => exact .declaration (.mk _ htype)
    · exact .malformed _ _
  · split
    · exact .missingNode
    · exact .assignment (.mk _)
    · exact .malformed _ _
  · split
    next h => exact .stop h
    next h => exact .expression h

/-! ## Statements that are analysed to their end -/

/-- How the analysis goes on behind a tree. A name that is declared already keeps its variable, and
nothing is stored. -/
inductive Advance (s : State) (t : Tree) : State → Expr → List Diagnostic → Prop
  | first {name : String} {type : ScalarType} {position : Option Position} {value : Tree} {v : Expr}
      {diagnostics : List Diagnostic} (h : Declares t name type position value)
      (hnew : s.symbols.find? name = none)
      (hvalue : storable (s.enter name type position) type position value = .ok (v, diagnostics)) :
      Advance s t ((s.enter name type position).store name type v) (.declaration name type v)
        diagnostics
  | again {name : String} {type : ScalarType} {position : Option Position} {value : Tree} {v : Expr}
      {diagnostics : List Diagnostic} (h : Declares t name type position value)
      (hold : s.symbols.find? name ≠ none)
      (hvalue : storable s type position value = .ok (v, diagnostics)) :
      Advance s t s (.declaration name type v) (⟨.alreadyDeclared name, position⟩ :: diagnostics)
  | assignment {name : String} {type : ScalarType} {position : Option Position} {value : Tree}
      {v : Expr} {diagnostics : List Diagnostic} (h : Assigns t name position value)
      (htype : s.symbols.typeOf? name = some type)
      (hvalue : storable s type position value = .ok (v, diagnostics)) :
      Advance s t (s.store name type v) (.assignment name v) diagnostics
  | expression {e : Expr} {diagnostics : List Diagnostic}
      (h : expression s.symbols t = .ok (e, diagnostics)) : Advance s t s e diagnostics

/-- A name that is declared already is not entered again. -/
theorem State.enter_eq_self {name : String} (h : s.symbols.find? name ≠ none) (type : ScalarType)
    (position : Option Position) : s.enter name type position = s := by
  obtain ⟨symbol, hsymbol⟩ := Option.ne_none_iff_exists'.1 h
  simp [State.enter, SymbolTable.declare?, hsymbol]

/-- A new name is entered behind all others. -/
theorem State.symbols_enter_of_new {name : String} (h : s.symbols.find? name = none)
    (type : ScalarType) (position : Option Position) :
    (s.enter name type position).symbols = ⟨s.symbols.symbols ++ [⟨name, type, position⟩]⟩ := by
  simp [State.enter, SymbolTable.declare?, h]

/-- A new variable has the type that it is declared with, and the others keep theirs. -/
theorem typeOf?_enter {name : String} (h : s.symbols.find? name = none) (type : ScalarType)
    (position : Option Position) (other : String) :
    (s.enter name type position).symbols.typeOf? other =
      if other = name then some type else s.symbols.typeOf? other := by
  rw [SymbolTable.typeOf?, State.symbols_enter_of_new h, SymbolTable.find?, List.find?_append,
    ← SymbolTable.find?]
  split_ifs with hother
  · subst hother
    simp [h]
  · have hne : ¬name = other := fun heq => hother heq.symm
    simp [hne, SymbolTable.typeOf?]

/-- A statement that is analysed to its end goes one of these ways. -/
theorem advance_of_statement (h : statement s t = .next s' e diagnostics) :
    Advance s t s' e diagnostics := by
  have htransition := transition_statement s t
  rw [h] at htransition
  generalize hstep : Step.next s' e diagnostics = step at htransition
  cases htransition with
  | @declaration name type position value hdeclares =>
    rw [declaration_eq] at hstep
    split at hstep
    · cases hstep
    next hvalue =>
      split_ifs at hstep with hnew <;> cases hstep
      · exact .first hdeclares hnew hvalue
      · rw [s.enter_eq_self hnew] at hvalue ⊢
        exact .again hdeclares hnew hvalue
  | @assignment name position value hassigns =>
    rw [assignment_eq] at hstep
    split at hstep
    · cases hstep
    next htype =>
      split at hstep
      · cases hstep
      next hvalue =>
        cases hstep
        exact .assignment hassigns htype hvalue
  | expression hvalue =>
    cases hstep
    exact .expression hvalue
  | stop | malformed | missingNode => cases hstep

/-- A list of statements is analysed to its end if the first statement and the others are. -/
theorem exists_of_run_cons_eq_ok {ts : List Tree} {es : List Expr}
    (h : (run s (t :: ts)).result = .ok (es, diagnostics)) :
    ∃ s' e first later rest, statement s t = .next s' e first ∧
      (run s' ts).result = .ok (later, rest) ∧ (run s (t :: ts)).state = (run s' ts).state ∧
        es = e :: later ∧ diagnostics = first ++ rest := by
  rw [run] at h ⊢
  cases hstep : statement s t with
  | halt s' reason => simp [hstep] at h
  | next s' e first =>
    simp only [hstep, Run.cons] at h ⊢
    cases hrest : (run s' ts).result with
    | error reason => simp [hrest, Except.map] at h
    | ok result =>
      simp only [hrest, Except.map, Except.ok.injEq, Prod.mk.injEq] at h
      exact ⟨s', e, first, result.1, result.2, rfl, hrest, rfl, h.1.symm, h.2.symm⟩

/-! ## Values that cannot be stored -/

/-- The tree stores `value` in a variable of type `target` whose name stands at `position`, and
`inner` is what is known in the value. A declaration stores by the type of its own keyword, be the
name new or not; an assignment by the declared type of the name. -/
inductive Stores (s : State) (t : Tree) : State → ScalarType → Option Position → Tree → Prop
  | declaration {name : String} {target : ScalarType} {position : Option Position} {value : Tree}
      (h : Declares t name target position value) :
      Stores s t (s.enter name target position) target position value
  | assignment {name : String} {target : ScalarType} {position : Option Position} {value : Tree}
      (h : Assigns t name position value) (htarget : s.symbols.typeOf? name = some target) :
      Stores s t s target position value

/-- A sequence of two analyses fails if the first does, or else the second. -/
theorem bind_eq_error_iff {α β : Type} {x : Except Halt α} {f : α → Except Halt β} {reason : Halt} :
    x >>= f = .error reason ↔ x = .error reason ∨ ∃ a, x = .ok a ∧ f a = .error reason := by
  cases x with
  | error other =>
    constructor
    · rintro ⟨⟩
      exact .inl rfl
    · rintro (⟨⟨⟩⟩ | ⟨_, ⟨⟩, _⟩)
      rfl
  | ok a =>
    constructor
    · exact fun h => .inr ⟨a, rfl, h⟩
    · rintro (⟨⟨⟩⟩ | ⟨_, ⟨⟩, h⟩)
      exact h

/-- No operator ends the analysis for a value that cannot be stored. -/
theorem binaryOp_ne_incompatible {cls : BinaryClass} {op : Tree} {target type : ScalarType}
    {text : String} {position : Option Position} :
    binaryOp cls op ≠ .error (.fatal ⟨.incompatible target type text, position⟩) := by
  unfold binaryOp
  split
  · simp
  · simp
  · split_ifs <;> simp [malformed]
  · split_ifs <;> simp [malformed]
  · simp

/-- No expression ends the analysis for a value that cannot be stored. -/
theorem expression_ne_incompatible (symbols : SymbolTable) (t : Tree) (target type : ScalarType)
    (text : String) (position : Option Position) :
    expression symbols t ≠ .error (.fatal ⟨.incompatible target type text, position⟩) := by
  intro h
  fun_induction expression symbols t with
  | case1 | case3 | case5 | case10 | case11 | case12 | case13 => simp [malformed] at h
  | case2 | case4 | case6 => cases h
  | case7 text p inner ih =>
    rcases bind_eq_error_iff.1 h with h | ⟨_, _, ⟨⟩⟩
    exact ih h
  | case8 op text p operand ih =>
    rcases bind_eq_error_iff.1 h with h | ⟨result, _, h⟩
    · exact ih h
    rcases bind_eq_error_iff.1 h with h | ⟨_, _, ⟨⟩⟩
    unfold unaryExpr at h
    split_ifs at h
    cases h
  | case9 cls text p left op right ihl ihr =>
    rcases bind_eq_error_iff.1 h with h | ⟨result, _, h⟩
    · exact ihl h
    rcases bind_eq_error_iff.1 h with h | ⟨result, _, h⟩
    · exact ihr h
    rcases bind_eq_error_iff.1 h with h | ⟨_, _, ⟨⟩⟩
    exact binaryOp_ne_incompatible h

/-- What the report of a value that cannot be stored says. -/
theorem incompatible?_eq_some_iff {target : ScalarType} {v : Expr} {position : Option Position}
    {d : Diagnostic} :
    incompatible? s target v position = some d ↔
      ∃ operand, resolve s.symbols s.bindings v = some operand ∧
        target.accepts operand.type = false ∧
          d = ⟨.incompatible target operand.type operand.text, position⟩ := by
  unfold incompatible?
  cases resolve s.symbols s.bindings v with
  | none => simp
  | some operand =>
    by_cases haccepts : target.accepts operand.type = true
    · simp [haccepts]
    · simp only [haccepts, Bool.false_eq_true, if_false]
      constructor
      · rintro ⟨⟩
        exact ⟨operand, rfl, by simpa using haccepts, rfl⟩
      · rintro ⟨_, ⟨⟩, -, rfl⟩
        rfl

/-- A value is reported as one that a variable of type `type` cannot hold only if it is analysed to
its end. -/
theorem exists_of_storable_eq_incompatible {target type held : ScalarType} {text : String}
    {position p : Option Position}
    (h : storable s type p value = .error (.fatal ⟨.incompatible target held text, position⟩)) :
    target = type ∧ position = p ∧ ∃ v diagnostics,
      expression s.symbols value = .ok (v, diagnostics) ∧
        incompatible? s type v p = some ⟨.incompatible target held text, position⟩ := by
  rcases bind_eq_error_iff.1 h with hvalue | ⟨⟨v, diagnostics⟩, hvalue, hstored⟩
  · exact absurd hvalue (expression_ne_incompatible _ _ _ _ _ _)
  cases hreport : incompatible? s type v p with
  | none => simp [hreport] at hstored
  | some d =>
    simp only [hreport, Except.error.injEq, Halt.fatal.injEq] at hstored
    subst hstored
    obtain ⟨operand, -, -, hd⟩ := incompatible?_eq_some_iff.1 hreport
    simp only [Diagnostic.mk.injEq, Diagnostic.Cause.incompatible.injEq] at hd
    exact ⟨hd.1.1, hd.2, v, diagnostics, hvalue, hreport⟩

/-- A value is reported as one that cannot be stored where it would be stored. -/
theorem exists_stores_of_incompatible {target type : ScalarType} {text : String}
    {position : Option Position}
    (h : statement s t = .halt s' (.fatal ⟨.incompatible target type text, position⟩)) :
    ∃ value v diagnostics, Stores s t s' target position value ∧
      expression s'.symbols value = .ok (v, diagnostics) ∧
        incompatible? s' target v position = some ⟨.incompatible target type text, position⟩ := by
  have htransition := transition_statement s t
  rw [h] at htransition
  generalize hstep : Step.halt s' (.fatal ⟨.incompatible target type text, position⟩) = step
    at htransition
  cases htransition with
  | declaration hdeclares =>
    rw [declaration_eq] at hstep
    split at hstep
    next hvalue =>
      cases hstep
      obtain ⟨rfl, rfl, v, diagnostics, hv, hreport⟩ := exists_of_storable_eq_incompatible hvalue
      exact ⟨_, v, diagnostics, .declaration hdeclares, hv, hreport⟩
    · split_ifs at hstep
  | assignment hassigns =>
    rw [assignment_eq] at hstep
    split at hstep
    · cases hstep
    next htype =>
      split at hstep
      next hvalue =>
        cases hstep
        obtain ⟨rfl, rfl, v, diagnostics, hv, hreport⟩ := exists_of_storable_eq_incompatible hvalue
        exact ⟨_, v, diagnostics, .assignment hassigns htype, hv, hreport⟩
      · cases hstep
  | stop hvalue =>
    cases hstep
    exact absurd hvalue (expression_ne_incompatible _ _ _ _ _ _)
  | expression => cases hstep
  | malformed | missingNode => simp [malformed] at hstep

end ScalarLang.Analysis

namespace ScalarLang.Verdict

/-- How a verdict comes about. -/
inductive Outcome : Tree → Verdict → Prop
  /-- The statements are analysed to their end. -/
  | completed {text : String} {position : Option Position} {ts : List Tree} {es : List Expr}
      {errors : List Diagnostic} (h : (Analysis.run .initial ts).result = .ok (es, errors)) :
      Outcome (.node .program text position ts)
        (ofStatements es errors (Analysis.run .initial ts).state.symbols)
  /-- The analysis ends in a statement. -/
  | stopped {text : String} {position : Option Position} {ts : List Tree} {d : Diagnostic}
      (h : (Analysis.run .initial ts).result = .error (.fatal d)) :
      Outcome (.node .program text position ts)
        (ofFatal d (Analysis.run .initial ts).state.symbols)
  /-- The tree is not that of a program. -/
  | malformed (t : Tree) :
      Outcome t (ofFatal ⟨.malformed t.kind "expected a program", t.position⟩ .empty)

/-- Every verdict comes about in one of these ways. -/
theorem outcome_of_ofTree? {t : Tree} {v : Verdict} (h : ofTree? t = some v) : Outcome t v := by
  unfold ofTree? at h
  split at h
  next ts =>
    dsimp only at h
    split at h
    next hrun =>
      cases h
      exact .completed hrun
    next hrun =>
      cases h
      exact .stopped hrun
    · cases h
  next =>
    cases h
    exact .malformed t

end ScalarLang.Verdict
