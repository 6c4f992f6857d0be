import ScalarLang.Proofs.Analysis.Transition
import ScalarLang.Proofs.Number.Reading
import ScalarLang.Proofs.Syntax.Layout
import ScalarLang.Verdict

/-!
# What analysis checks of a tree

A tree that is built by hand is analysed as it stands, and what is not built as its kind demands ends
the analysis. How much of the layout of syntax trees is checked so? Two layouts are compared. They
agree in the kinds and numbers of children, in the keywords of types and in the two truth values, and
they differ in the texts that they allow:

* `Layout.documented`: a number is a numeral, and between the operands of an operation stands an
  operator of its class;
* `Layout.checked`: a number is any text that denotes a value, and between the operands of a
  conjunction or disjunction stands anything.

A tree that is analysed without a fatal reason has the checked layout, and one that has it is never
called malformed (`layout_of_no_fatal`). What it then lacks of the documented layout is
`Layout.unchecked`.
-/

namespace ScalarLang

/-- The symbols of the operators of a class. -/
def BinaryClass.symbols : BinaryClass → List String
  | disjunction => ["||"]
  | conjunction => ["&&"]
  | additive => ["+", "-"]
  | multiplicative => ["*", "/", "%"]

/-- The node is there and has the symbol of an operator of the class. -/
def Tree.Carries (cls : BinaryClass) : Tree → Prop
  | missing => False
  | node _ text _ _ => text ∈ cls.symbols

/-- What is demanded of texts in a tree: of those of numbers, and of what stands between the operands
of an operation. -/
structure Layout where
  number : String → Prop
  operator : BinaryClass → Tree → Prop

namespace Layout

/-- The layout of values. There are no declarations and assignments in them. -/
inductive IsValue (layout : Layout) : Tree → Prop
  | var (name : String) (position : Option Position) (children : List Tree) :
      IsValue layout (.node .var name position children)
  | number {text : String} (position : Option Position) (children : List Tree)
      (h : layout.number text) : IsValue layout (.node .number text position children)
  | boolean {text : String} (position : Option Position) (children : List Tree)
      (h : text = "true" ∨ text = "false") : IsValue layout (.node .boolean text position children)
  | parens (text : String) (position : Option Position) {inner : Tree}
      (h : IsValue layout inner) : IsValue layout (.node .parens text position [inner])
  | unary (op : UnaryOp) (text : String) (position : Option Position) {operand : Tree}
      (h : IsValue layout operand) : IsValue layout (.node (.unary op) text position [operand])
  | binary {cls : BinaryClass} (text : String) (position : Option Position) {left op right : Tree}
      (hleft : IsValue layout left) (hright : IsValue layout right)
      (hop : layout.operator cls op) :
      IsValue layout (.node (.binary cls) text position [left, op, right])

/-- The layout of statements. -/
inductive IsStatement (layout : Layout) : Tree → Prop
  | declaration (text : String) (position : Option Position) {kind nameKind : NodeKind}
      {keyword name : String} {keywordPosition namePosition : Option Position}
      {keywordChildren nameChildren : List Tree} {value : Tree}
      (hkeyword : keyword ∈ ["int", "float", "bool"]) (hvalue : layout.IsValue value) :
      IsStatement layout (.node .declaration text position
        [.node kind keyword keywordPosition keywordChildren,
          .node nameKind name namePosition nameChildren, value])
  | assignment (text : String) (position : Option Position) {kind : NodeKind} {name : String}
      {namePosition : Option Position} {nameChildren : List Tree} {value : Tree}
      (hvalue : layout.IsValue value) :
      IsStatement layout (.node .assignment text position
        [.node kind name namePosition nameChildren, value])
  | value {t : Tree} (h : layout.IsValue t) : IsStatement layout t

/-- The layout of programs. -/
inductive IsProgram (layout : Layout) : Tree → Prop
  | mk (text : String) (position : Option Position) {statements : List Tree}
      (h : ∀ statement ∈ statements, layout.IsStatement statement) :
      IsProgram layout (.node .program text position statements)

theorem IsProgram.isStatement {layout : Layout} {text : String} {position : Option Position}
    {statements : List Tree} (h : layout.IsProgram (.node .program text position statements)) :
    ∀ statement ∈ statements, layout.IsStatement statement := by
  cases h with
  | mk _ _ h => exact h

/-- The layout of the trees of programs. -/
def documented : Layout where
  number := fun text => Numeral.IsNumeral text.toList
  operator := Tree.Carries

/-- What analysis checks. -/
def checked : Layout where
  number := fun text => Numeral.value? text ≠ none
  operator := fun cls op => cls = .additive ∨ cls = .multiplicative → op.Carries cls

/-- The demands of two layouts together. -/
def both (first second : Layout) : Layout where
  number := fun text => first.number text ∧ second.number text
  operator := fun cls op => first.operator cls op ∧ second.operator cls op

/-- Every demand of the second layout is one of the first. -/
structure Implies (first second : Layout) : Prop where
  number : ∀ text, first.number text → second.number text
  operator : ∀ cls op, first.operator cls op → second.operator cls op

variable {first second : Layout} {t : Tree}

theorem Implies.isValue (himplies : first.Implies second) (h : first.IsValue t) :
    second.IsValue t := by
  induction h with
  | var name position children => exact .var name position children
  | number position children h => exact .number position children (himplies.number _ h)
  | boolean position children h => exact .boolean position children h
  | parens text position _ ih => exact .parens text position ih
  | unary op text position _ ih => exact .unary op text position ih
  | binary text position _ _ hop ihl ihr =>
    exact .binary text position ihl ihr (himplies.operator _ _ hop)

theorem Implies.isStatement (himplies : first.Implies second) (h : first.IsStatement t) :
    second.IsStatement t := by
  cases h with
  | declaration text position hkeyword hvalue =>
    exact .declaration text position hkeyword (himplies.isValue hvalue)
  | assignment text position hvalue => exact .assignment text position (himplies.isValue hvalue)
  | value h => exact .value (himplies.isValue h)

/-- A value that has two layouts has both at once. -/
theorem IsValue.both (hfirst : first.IsValue t) (hsecond : second.IsValue t) :
    (first.both second).IsValue t := by
  -- the layouts agree in the kinds of nodes, so one derivation determines the form of the other
  induction hfirst with
  | var name position children => exact .var name position children
  | number position children h =>
    cases hsecond with
    | number _ _ h' => exact .number position children ⟨h, h'⟩
  | boolean position children h => exact .boolean position children h
  | parens text position _ ih =>
    cases hsecond with
    | parens _ _ h' => exact .parens text position (ih h')
  | unary op text position _ ih =>
    cases hsecond with
    | unary _ _ _ h' => exact .unary op text position (ih h')
  | binary text position _ _ hop ihl ihr =>
    cases hsecond with
    | binary _ _ hl' hr' hop' => exact .binary text position (ihl hl') (ihr hr') ⟨hop, hop'⟩

/-- A declaration or assignment is no value. -/
theorem IsValue.kind_ne (h : first.IsValue t) : t.kind ≠ .declaration ∧ t.kind ≠ .assignment := by
  cases h <;> exact ⟨NodeKind.noConfusion, NodeKind.noConfusion⟩

theorem IsStatement.both (hfirst : first.IsStatement t) (hsecond : second.IsStatement t) :
    (first.both second).IsStatement t := by
  cases hfirst with
  | declaration text position hkeyword hvalue =>
    cases hsecond with
    | declaration _ _ _ hvalue' => exact .declaration text position hkeyword (hvalue.both hvalue')
    | value h => exact absurd rfl h.kind_ne.1
  | assignment text position hvalue =>
    cases hsecond with
    | assignment _ _ hvalue' => exact .assignment text position (hvalue.both hvalue')
    | value h => exact absurd rfl h.kind_ne.2
  | value h =>
    cases hsecond with
    | declaration => exact absurd rfl h.kind_ne.1
    | assignment => exact absurd rfl h.kind_ne.2
    | value h' => exact .value (h.both h')

theorem IsProgram.both (hfirst : first.IsProgram t) (hsecond : second.IsProgram t) :
    (first.both second).IsProgram t := by
  obtain ⟨text, position, h⟩ := hfirst
  obtain ⟨_, _, h'⟩ := hsecond
  exact .mk text position fun statement hmem => (h statement hmem).both (h' statement hmem)

end Layout

namespace Analysis

open Layout

variable {symbols : SymbolTable} {s s' : State} {t : Tree} {e : Expr}
  {diagnostics : List Diagnostic}

/-! ## What is analysed has the checked layout -/

/-- An operator is read exactly if what stands between the operands is as checked. -/
theorem exists_binaryOp_iff {cls : BinaryClass} {op : Tree} :
    (∃ operator, binaryOp cls op = .ok operator) ↔ checked.operator cls op := by
  cases cls with
  | conjunction | disjunction => simp [binaryOp, checked]
  | additive | multiplicative =>
    cases op with
    | missing => simp [binaryOp, checked, Tree.Carries]
    | node kind text position children =>
      simp only [binaryOp, checked, Tree.Carries, BinaryClass.symbols, List.mem_cons,
        List.not_mem_nil, or_false, Bool.or_eq_true, decide_eq_true_eq, or_assoc]
      split_ifs with htext <;> simp_all

theorem isValue_of_expression (h : expression symbols t = .ok (e, diagnostics)) :
    checked.IsValue t := by
  fun_induction expression symbols t generalizing e diagnostics with
  | case1 | case3 | case5 | case10 | case11 | case12 | case13 => cases h
  | case2 text position children literal hliteral =>
    obtain ⟨value, hvalue, -⟩ := Option.map_eq_some_iff.1 hliteral
    exact .number position children (by simp [checked, hvalue])
  | case4 text position children literal hliteral =>
    refine .boolean position children ?_
    unfold booleanLiteral? at hliteral
    split_ifs at hliteral with htrue hfalse
    · exact .inl htrue
    · exact .inr hfalse
  | case6 name position children => exact .var name position children
  | case7 text position inner ih =>
    obtain ⟨_, hinner, -⟩ := bind_eq_ok_iff.1 h
    exact .parens text position (ih hinner)
  | case8 op text position operand ih =>
    obtain ⟨_, hoperand, -⟩ := bind_eq_ok_iff.1 h
    exact .unary op text position (ih hoperand)
  | case9 cls text position left op right ihl ihr =>
    obtain ⟨_, hleft, h⟩ := bind_eq_ok_iff.1 h
    obtain ⟨_, hright, h⟩ := bind_eq_ok_iff.1 h
    obtain ⟨operator, hop, -⟩ := bind_eq_ok_iff.1 h
    exact .binary text position (ihl hleft) (ihr hright) (exists_binaryOp_iff.1 ⟨operator, hop⟩)

/-- A type is read exactly if its keyword is one of the three. -/
theorem exists_ofName?_iff {keyword : String} :
    (∃ type, ScalarType.ofName? keyword = some type) ↔ keyword ∈ ["int", "float", "bool"] := by
  unfold ScalarType.ofName?
  split_ifs <;> simp_all

theorem isStatement_of_statement (h : statement s t = .next s' e diagnostics) :
    checked.IsStatement t := by
  have hstored {s : State} {type : ScalarType} {position : Option Position} {value : Tree}
      {v : Expr} {diagnostics : List Diagnostic}
      (hvalue : storable s type position value = .ok (v, diagnostics)) : checked.IsValue value :=
    isValue_of_expression (storable_eq_ok_iff.1 hvalue).1
  cases advance_of_statement h with
  | first hdeclares _ hvalue =>
    obtain ⟨_, htype⟩ := hdeclares
    exact .declaration _ _ (exists_ofName?_iff.1 ⟨_, htype⟩) (hstored hvalue)
  | again hdeclares _ hvalue =>
    obtain ⟨_, htype⟩ := hdeclares
    exact .declaration _ _ (exists_ofName?_iff.1 ⟨_, htype⟩) (hstored hvalue)
  | assignment hassigns _ hvalue =>
    obtain ⟨_⟩ := hassigns
    exact .assignment _ _ (hstored hvalue)
  | expression hvalue => exact .value (isValue_of_expression hvalue)

theorem isStatement_of_run {ts : List Tree} {result : List Expr × List Diagnostic}
    (h : (run s ts).result = .ok result) : ∀ t ∈ ts, checked.IsStatement t := by
  induction ts generalizing s result with
  | nil => simp
  | cons t ts ih =>
    obtain ⟨s', _, _, _, _, hstep, hrest, -⟩ := exists_of_run_cons_eq_ok h
    rw [List.forall_mem_cons]
    exact ⟨isStatement_of_statement hstep, ih hrest⟩

/-! ## Where the analysis of a tree of some layout ends -/

/-- How the analysis of a tree may end early if its layout is not at fault: for a reason other than
that the tree is malformed, or at a number that the layout allows and that denotes no value. -/
inductive EndsAt (layout : Layout) (t : Tree) : Halt → Prop
  | other {d : Diagnostic} (h : ∀ kind reason, d.cause ≠ .malformed kind reason) :
      EndsAt layout t (.fatal d)
  | number {text : String} {position : Option Position} {children : List Tree}
      (hmem : .node .number text position children ∈ Tree.forest [t])
      (hnumber : layout.number text) (hvalue : Numeral.value? text = none) :
      EndsAt layout t (.fatal ⟨.malformed .number s!"invalid number '{text}'", position⟩)

variable {layout : Layout} {reason : Halt}

/-- What ends the analysis of a child may end that of its parent. -/
theorem EndsAt.of_child {kind : NodeKind} {text : String} {position : Option Position}
    {children : List Tree} (h : EndsAt layout t reason) (hmem : t ∈ children) :
    EndsAt layout (.node kind text position children) reason := by
  cases h with
  | other h => exact .other h
  | number hnode hnumber hvalue =>
    exact .number (Tree.mem_forest_node_iff.2 (.inr ⟨t, hmem, hnode⟩)) hnumber hvalue

variable (hlayout : ∀ cls op, layout.operator cls op → checked.operator cls op)

include hlayout in
/-- A value of a layout whose operators are read is analysed up to a minus too many or a number
without a value. -/
theorem endsAt_of_expression (ht : layout.IsValue t)
    (h : expression symbols t = .error reason) : EndsAt layout t reason := by
  induction ht generalizing reason with
  | var name position children => cases h
  | @number text position children hnumber =>
    rw [expression] at h
    cases hvalue : Numeral.value? text with
    | none =>
      simp only [numberLiteral?, hvalue, Option.map_none, Except.error.injEq] at h
      subst h
      exact .number (Tree.self_mem_forest _) hnumber hvalue
    | some value => simp [numberLiteral?, hvalue] at h
  | boolean position children hword =>
    rcases hword with rfl | rfl <;> cases h
  | parens text position _ ih =>
    rw [expression] at h
    rcases bind_eq_error_iff.1 h with h | ⟨_, _, ⟨⟩⟩
    exact (ih h).of_child List.mem_cons_self
  | unary op text position _ ih =>
    rw [expression] at h
    rcases bind_eq_error_iff.1 h with h | ⟨_, _, h⟩
    · exact (ih h).of_child List.mem_cons_self
    rcases bind_eq_error_iff.1 h with h | ⟨_, _, ⟨⟩⟩
    unfold unaryExpr at h
    split_ifs at h
    cases h
    exact .other (by simp)
  | binary text position _ _ hop ihl ihr =>
    rw [expression] at h
    rcases bind_eq_error_iff.1 h with h | ⟨_, _, h⟩
    · exact (ihl h).of_child (by simp)
    rcases bind_eq_error_iff.1 h with h | ⟨_, _, h⟩
    · exact (ihr h).of_child (by simp)
    -- the operator is read
    obtain ⟨operator, hoperator⟩ := exists_binaryOp_iff.2 (hlayout _ _ hop)
    rw [hoperator] at h
    cases h

include hlayout in
/-- So is a value that is stored, or else it cannot be. -/
theorem endsAt_of_storable {type : ScalarType} {position : Option Position} {value : Tree}
    (hvalue : layout.IsValue value) (h : storable s type position value = .error reason) :
    EndsAt layout value reason := by
  rcases bind_eq_error_iff.1 h with h | ⟨⟨v, diagnostics⟩, -, h⟩
  · exact endsAt_of_expression hlayout hvalue h
  · cases hreport : incompatible? s type v position with
    | none => simp [hreport] at h
    | some d =>
      simp only [hreport, Except.error.injEq] at h
      subst h
      obtain ⟨operand, -, -, rfl⟩ := incompatible?_eq_some_iff.1 hreport
      exact .other (by simp)

include hlayout in
theorem endsAt_of_statement (ht : layout.IsStatement t) (h : statement s t = .halt s' reason) :
    EndsAt layout t reason := by
  cases ht with
  | declaration text position hkeyword hvalue =>
    obtain ⟨type, htype⟩ := exists_ofName?_iff.2 hkeyword
    simp only [statement, htype, declaration_eq] at h
    split at h
    next hstored =>
      cases h
      exact (endsAt_of_storable hlayout hvalue hstored).of_child (by simp)
    next => split_ifs at h
  | assignment text position hvalue =>
    simp only [statement, assignment_eq] at h
    split at h
    · cases h
      exact .other (by simp)
    · split at h
      next hstored =>
        cases h
        exact (endsAt_of_storable hlayout hvalue hstored).of_child (by simp)
      next => cases h
  | value hvalue =>
    have hmissing : t ≠ .missing := by rintro rfl; cases hvalue
    rw [statement_eq_of_kind hmissing hvalue.kind_ne.1 hvalue.kind_ne.2] at h
    split at h
    next hexpression =>
      cases h
      exact endsAt_of_expression hlayout hvalue hexpression
    next => cases h

include hlayout in
theorem endsAt_of_run {ts : List Tree} (hts : ∀ t ∈ ts, layout.IsStatement t)
    (h : (run s ts).result = .error reason) : ∃ t ∈ ts, EndsAt layout t reason := by
  induction ts generalizing s with
  | nil => cases h
  | cons t ts ih =>
    rw [List.forall_mem_cons] at hts
    rw [run] at h
    cases hstep : statement s t with
    | halt s' reason' =>
      rw [hstep] at h
      cases h
      exact ⟨t, List.mem_cons_self, endsAt_of_statement hlayout hts.1 hstep⟩
    | next s' e diagnostics =>
      rw [hstep] at h
      obtain ⟨u, hu, hends⟩ := ih hts.2 (Run.cons_eq_error_iff.1 h)
      exact ⟨u, List.mem_cons_of_mem _ hu, hends⟩

end Analysis

/-! ## Verdicts -/

namespace Verdict

open Layout Analysis

variable {t : Tree}

/-- A tree that is analysed without a fatal reason has the checked layout. -/
theorem isProgram_of_fatal_eq_none {v : Verdict} (hv : ofTree? t = some v)
    (hfatal : v.fatal = none) : checked.IsProgram t := by
  cases outcome_of_ofTree? hv with
  | completed hrun => exact .mk _ _ (isStatement_of_run hrun)
  | stopped | malformed => cases hfatal

/-- There is a verdict on every program of a layout whose operators are read, and the program is
called malformed only at a number that the layout allows and that denotes no value. -/
theorem exists_ofTree?_of_layout {layout : Layout}
    (hlayout : ∀ cls op, layout.operator cls op → checked.operator cls op)
    (ht : layout.IsProgram t) :
    ∃ v, ofTree? t = some v ∧ ∀ d, v.fatal = some d → EndsAt layout t (.fatal d) := by
  obtain ⟨text, position, hstatements⟩ := ht
  rw [ofTree?]
  cases hrun : (Analysis.run .initial _).result with
  | ok result =>
    refine ⟨_, rfl, fun d hd => ?_⟩
    simp only [ofStatements] at hd
    split_ifs at hd
  | error reason =>
    obtain ⟨statement, hmem, hend⟩ := endsAt_of_run hlayout hstatements hrun
    -- the analysis ends at a node of the statement, never for want of a node
    cases hend with
    | other h =>
      refine ⟨_, rfl, ?_⟩
      rintro d ⟨⟩
      exact .other h
    | number hnode hnumber hvalue =>
      refine ⟨_, rfl, ?_⟩
      rintro d ⟨⟩
      exact (EndsAt.number hnode hnumber hvalue).of_child hmem

end Verdict

end ScalarLang
