import ScalarLang.Proofs.Analysis.Statement
import ScalarLang.Proofs.Token.Spelling

/-!
# Violations

What ends the analysis of a program early, said of the syntax trees of its statements. A statement
violates a rule if

* it assigns to a name that no earlier statement declares;
* it contains a minus before the minus of a number or variable;
* it contains a number that is out of range;
* it stores a value that is known to be of a type that the variable cannot hold.

`violations before t` lists what the statement `t` after the statements `before` violates, in the
order of evaluation. The analysis of a statement ends early exactly if the list is not empty, and
then with its head (`halt?_statement`).
-/

namespace ScalarLang

namespace Tree

mutual

/-- The nodes of a tree in the order of evaluation: operands from left to right, and each before its
operator. -/
def postorder : Tree → List Tree
  | missing => []
  | node kind text position children =>
    postorderForest children ++ [node kind text position children]

/-- The nodes of all trees of a list in the order of evaluation. -/
def postorderForest : List Tree → List Tree
  | [] => []
  | t :: ts => t.postorder ++ postorderForest ts

end

end Tree

namespace Analysis

/-! ## The rules -/

/-- Whether a tree is the minus of a number or variable. -/
def isSignedAtom : Tree → Bool
  | .node (.unary .minus) _ _ [operand] => operand.kind = .number || operand.kind = .var
  | _ => false

/-- What a node of an expression violates by itself. -/
def nodeViolation? : Tree → Option Diagnostic
  | .node .number text position _ =>
    if (Numeral.value? text).isSome then none
    else some ⟨.malformed .number s!"invalid number '{text}'", position⟩
  | .node (.unary .minus) _ position [operand] =>
    if isSignedAtom operand then some ⟨.consecutiveMinus, position⟩ else none
  | _ => none

/-- What the nodes of an expression violate, in the order of evaluation. -/
def valueViolations (value : Tree) : List Diagnostic :=
  value.postorder.filterMap nodeViolation?

/-- The report of a value that is known to be of a type that a variable of type `type` cannot
hold. -/
def mismatch? (s : State) (type : ScalarType) (position : Option Position) (value : Tree) :
    Option Diagnostic :=
  match expression s.symbols value with
  | .error _ => none
  | .ok (v, _) =>
    (resolve s.symbols s.bindings v).bind fun operand =>
      if type.accepts operand.type then none
      else some ⟨.incompatible type operand.type operand.text, position⟩

/-- The name that a statement declares. -/
def declaredName? : Tree → Option String
  | .node .declaration _ _ [_, .node _ name _ _, _] => some name
  | _ => none

/-- What is known after some statements. -/
def known (before : List Tree) : State :=
  (run .initial before).state

/-- What the statement `t` after the statements `before` violates: first that its target is not
declared, then what its value violates, then that the value cannot be stored. -/
def violations (before : List Tree) (t : Tree) : List Diagnostic :=
  match t with
  | .node .declaration _ _ [.node _ keyword _ _, .node _ name position _, value] =>
    valueViolations value ++
      ((ScalarType.ofName? keyword).bind fun type =>
        mismatch? ((known before).enter name type position) type position value).toList
  | .node .assignment _ _ [.node _ name position _, value] =>
    (if name ∈ before.filterMap declaredName? then [] else [⟨.undeclared name, position⟩]) ++
      (valueViolations value ++
        (((known before).symbols.typeOf? name).bind fun type =>
          mismatch? (known before) type position value).toList)
  | value => valueViolations value

/-! ## Where analysis ends -/

/-- Why an analysis ended early. -/
def halt? {α : Type} : Except Halt α → Option Halt
  | .error reason => some reason
  | .ok _ => none

/-- Why the analysis of a statement ended early. -/
def Step.halt? : Step → Option Halt
  | .halt _ reason => some reason
  | .next _ _ _ => none

/-- The kind of node that an expression is made from. -/
def kindOf : Expr → NodeKind
  | .number _ _ => .number
  | .boolean _ => .boolean
  | .var _ => .var
  | .parens _ => .parens
  | .unary op _ => .unary op
  | .binary op _ _ => .binary op.cls
  | .declaration _ _ _ => .declaration
  | .assignment _ _ => .assignment

open ScalarLang.Grammar ScalarLang.Lexeme

variable {symbols : SymbolTable} {e : Expr} {diagnostics : List Diagnostic}

/-- An expression shows the node that it is made from. -/
theorem kindOf_of_expression {s : Nonterminal} (d : Phrase s)
    (h : expression symbols d.tree = .ok (e, diagnostics)) : kindOf e = d.tree.kind := by
  induction d generalizing e diagnostics with
  | operand inner ih => exact ih h
  | primary inner ih => exact ih h
  | number literal =>
    obtain ⟨hliteral, -⟩ := expression_number_eq_ok_iff.1 h
    obtain ⟨v, -, rfl⟩ := Option.map_eq_some_iff.1 hliteral
    rfl
  | boolean literal =>
    obtain ⟨hliteral, -⟩ := expression_boolean_eq_ok_iff.1 h
    unfold booleanLiteral? at hliteral
    split_ifs at hliteral <;> cases hliteral <;> rfl
  | var name =>
    cases h
    rfl
  | unary op sign inner =>
    obtain ⟨operand, -, rfl, -⟩ := expression_unary_eq_ok_iff.1 h
    rfl
  | parens opening inner closing =>
    obtain ⟨operand, -, rfl⟩ := expression_parens_eq_ok_iff.1 h
    rfl
  | @binary cls left op right =>
    obtain ⟨l, r, _, _, operator, -, -, hop, rfl, -⟩ := expression_binary_eq_ok_iff.1 h
    unfold binaryOp leaf Tree.leaf at hop
    cases cls with
    | disjunction | conjunction => cases hop; rfl
    | additive | multiplicative =>
      dsimp only at hop
      split_ifs at hop
      cases hop
      rfl

/-- The operand of a minus decides whether a further minus may follow. -/
theorem isMinusOfAtom_minus (operand : Expr) :
    isMinusOfAtom (.unary .minus operand)
      = (decide (kindOf operand = .number) || decide (kindOf operand = .var)) := by
  cases operand <;> rfl

/-- A minus of a number or variable shows in the expression as it does in the tree. -/
theorem isMinusOfAtom_eq (d : Phrase .unary)
    (h : expression symbols d.tree = .ok (e, diagnostics)) :
    isMinusOfAtom e = isSignedAtom d.tree := by
  cases d with
  | primary inner =>
    -- there is no minus at the top, neither of the tree nor of the expression
    have hkind := kindOf_of_expression inner h
    have hne := inner.kind_tree_ne_unary .minus
    have hexpr : isMinusOfAtom e = false := by
      unfold isMinusOfAtom
      split <;> first | rfl | exact absurd hkind.symm hne
    have htree : isSignedAtom inner.tree = false := by
      unfold isSignedAtom
      split
      next heq =>
        rw [heq] at hne
        exact absurd rfl hne
      next => rfl
    rw [hexpr]
    exact htree.symm
  | unary op sign inner =>
    obtain ⟨operand, hoperand, rfl, -⟩ := expression_unary_eq_ok_iff.1 h
    cases op with
    | minus =>
      rw [isMinusOfAtom_minus, kindOf_of_expression inner hoperand]
      rfl
    | not => rfl

/-! ## Expressions -/

/-- The violations of a node come behind those of its children. -/
theorem valueViolations_node (kind : NodeKind) (text : String) (position : Option Position)
    (children : List Tree) :
    valueViolations (.node kind text position children)
      = children.flatMap valueViolations
        ++ (nodeViolation? (.node kind text position children)).toList := by
  have hforest : (Tree.postorderForest children).filterMap nodeViolation?
      = children.flatMap valueViolations := by
    induction children with
    | nil => rfl
    | cons t ts ih => rw [Tree.postorderForest, List.filterMap_append, ih]; rfl
  rw [valueViolations, Tree.postorder, List.filterMap_append, hforest]
  cases hnode : nodeViolation? (.node kind text position children) <;> simp [hnode]

/-- The first violation of a node is that of its children, or else its own. -/
theorem head?_valueViolations_node (kind : NodeKind) (text : String) (position : Option Position)
    (children : List Tree) :
    (valueViolations (.node kind text position children)).head?.map Halt.fatal
      = ((children.flatMap valueViolations).head?.map Halt.fatal).or
          ((nodeViolation? (.node kind text position children)).map .fatal) := by
  rw [valueViolations_node, List.head?_append, Option.map_or]
  cases nodeViolation? (.node kind text position children) <;> rfl

/-- A truth value is always read. -/
theorem exists_booleanLiteral? {t : Token} (ht : t.kind = .boolean)
    (hspelled : Spelled t.kind t.text.toList) : ∃ e, booleanLiteral? t.text = some e := by
  -- the lexer takes only the two words for truth values that are read here
  have hword := wordKind_of_spelled hspelled (.inr (.inl ht))
  rw [String.ofList_toList, ht, wordKind] at hword
  unfold booleanLiteral?
  split_ifs at hword ⊢ <;> simp_all

/-- The operator of a binary operation is always read. -/
theorem exists_binaryOp {cls : BinaryClass} {t : Token} (ht : t.kind ∈ operators cls)
    (hspelled : Spelled t.kind t.text.toList) : ∃ op, binaryOp cls (leaf .token t) = .ok op := by
  cases cls with
  | disjunction | conjunction => exact ⟨_, rfl⟩
  | additive =>
    simp only [operators, List.mem_cons, List.not_mem_nil, or_false] at ht
    refine ⟨.additive t.text, ?_⟩
    rcases ht with ht | ht <;> rw [ht] at hspelled <;>
      simp [binaryOp, leaf, Tree.leaf, text_of_spelled hspelled rfl]
  | multiplicative =>
    simp only [operators, List.mem_cons, List.not_mem_nil, or_false] at ht
    refine ⟨.multiplicative t.text, ?_⟩
    rcases ht with ht | ht | ht <;> rw [ht] at hspelled <;>
      simp [binaryOp, leaf, Tree.leaf, text_of_spelled hspelled rfl]

/-- A sequence of analyses ends where the first of them does. -/
theorem halt?_bind {α β : Type} (x : Except Halt α) (f : α → Except Halt β) :
    halt? (x >>= f) = (halt? x).or (match x with | .error _ => none | .ok a => halt? (f a)) := by
  cases x <;> rfl

/-- The analysis of an expression ends at its first violation. -/
theorem halt?_expression {s : Nonterminal} (d : Phrase s)
    (hspelled : ∀ t ∈ d.tokens, Spelled t.kind t.text.toList) (symbols : SymbolTable) :
    halt? (expression symbols d.tree) = (valueViolations d.tree).head?.map .fatal := by
  -- each node is analysed behind its operands, and so are its violations
  induction d with
  | operand inner ih => exact ih hspelled
  | primary inner ih => exact ih hspelled
  | number literal =>
    rw [Phrase.tree, leaf, Tree.leaf, head?_valueViolations_node]
    simp only [expression, numberLiteral?, nodeViolation?]
    cases Numeral.value? literal.val.text <;> rfl
  | boolean literal =>
    rw [Phrase.tree, leaf, Tree.leaf, head?_valueViolations_node]
    obtain ⟨e, he⟩ := exists_booleanLiteral? literal.property (hspelled _ List.mem_cons_self)
    simp only [expression, he]
    rfl
  | var name => rfl
  | unary op sign inner ih =>
    have hinner := ih fun t ht => hspelled t (List.mem_cons_of_mem _ ht)
    rw [Phrase.tree, head?_valueViolations_node, List.flatMap_singleton, ← hinner, expression,
      halt?_bind]
    cases hoperand : expression symbols inner.tree with
    | error reason => rfl
    | ok result =>
      -- the operand has no violation, so what is left is the operator itself
      have hatom := isMinusOfAtom_eq inner hoperand
      cases op with
      | not => rfl
      | minus =>
        simp only [nodeViolation?, unaryExpr, hatom]
        cases isSignedAtom inner.tree <;> rfl
  | parens opening inner closing ih =>
    simp only [Phrase.tokens, List.mem_cons, List.mem_append] at hspelled
    have hinner := ih fun t ht => hspelled t (.inr (.inl ht))
    rw [Phrase.tree, head?_valueViolations_node, List.flatMap_singleton, ← hinner, expression,
      halt?_bind]
    cases expression symbols inner.tree <;> rfl
  | binary left op right ihl ihr =>
    simp only [Phrase.tokens, List.mem_cons, List.mem_append] at hspelled
    have hleft := ihl fun t ht => hspelled t (.inl ht)
    have hright := ihr fun t ht => hspelled t (.inr (.inr ht))
    obtain ⟨operator, hop⟩ := exists_binaryOp op.property (hspelled op.val (.inr (.inl rfl)))
    -- the operator has a node between its operands, which violates nothing
    have hoperands : ([left.tree, leaf .token op.val, right.tree].flatMap valueViolations)
        = valueViolations left.tree ++ valueViolations right.tree := by
      have hleaf : valueViolations (leaf .token op.val) = [] := rfl
      simp [hleaf]
    rw [Phrase.tree, head?_valueViolations_node, hoperands, List.head?_append, Option.map_or,
      ← hleft, ← hright, expression, halt?_bind]
    cases expression symbols left.tree with
    | error reason => rfl
    | ok l =>
      simp only [halt?_bind]
      cases expression symbols right.tree with
      | error reason => rfl
      | ok r => rw [hop]; rfl

/-! ## Statements -/

section Statements

variable {s : State} {type : ScalarType} {name : String} {position : Option Position}

/-- The value of a declaration or assignment ends at its first violation, or else because it cannot
be stored. -/
theorem halt?_storable (value : Phrase .expression)
    (hspelled : ∀ t ∈ value.tokens, Spelled t.kind t.text.toList) :
    halt? (storable s type position value.tree)
      = (valueViolations value.tree ++ (mismatch? s type position value.tree).toList).head?.map
          .fatal := by
  rw [List.head?_append, Option.map_or, ← halt?_expression value hspelled s.symbols, storable,
    halt?_bind, mismatch?]
  cases expression s.symbols value.tree with
  | error reason => rfl
  | ok result =>
    simp only [incompatible?]
    cases resolve s.symbols s.bindings result.1 with
    | none => rfl
    | some operand =>
      by_cases haccepts : type.accepts operand.type = true <;> simp [haccepts, halt?]

/-- A declaration ends with its value. -/
theorem halt?_declaration {value : Tree} :
    (declaration s type name position value).halt?
      = halt? (storable (s.enter name type position) type position value) := by
  rw [declaration_eq]
  cases storable (s.enter name type position) type position value with
  | error reason => rfl
  | ok result => split_ifs <;> rfl

end Statements

/-- A type is always read. -/
theorem exists_ofName? {t : Token} (ht : t.kind = .typeName)
    (hspelled : Spelled t.kind t.text.toList) : ∃ type, ScalarType.ofName? t.text = some type := by
  have hword := wordKind_of_spelled hspelled (.inl ht)
  rw [String.ofList_toList, ht, wordKind] at hword
  unfold ScalarType.ofName?
  split_ifs at hword ⊢ <;> simp_all

/-- An expression as a statement violates what its nodes do. -/
theorem violations_phrase (before : List Tree) (value : Phrase .expression) :
    violations before value.tree = valueViolations value.tree := by
  obtain ⟨hdeclaration, hassignment⟩ := value.kind_tree_ne_statement
  unfold violations
  split
  next heq => exact absurd (congrArg Tree.kind heq) hdeclaration
  next heq => exact absurd (congrArg Tree.kind heq) hassignment
  next => rfl

/-- The analysis of a statement ends at its first violation, if exactly the names that earlier
statements declare are declared. -/
theorem halt?_statement (d : Statement)
    (hspelled : ∀ t ∈ d.tokens, Spelled t.kind t.text.toList) {before : List Tree}
    (hnames : ∀ name, ((known before).symbols.typeOf? name).isSome = true ↔
      name ∈ before.filterMap declaredName?) :
    (statement (known before) d.tree).halt? = (violations before d.tree).head?.map .fatal := by
  cases d with
  | declaration type name assign value =>
    simp only [Statement.tokens, List.mem_cons] at hspelled
    obtain ⟨scalarType, hscalar⟩ := exists_ofName? type.property (hspelled _ (.inl rfl))
    rw [statement_declaration _ type name assign value hscalar, halt?_declaration,
      halt?_storable value fun t ht => hspelled t (.inr (.inr (.inr ht)))]
    simp only [Statement.tree, leaf, Tree.leaf, violations, hscalar, Option.bind_some]
  | assignment name assign value =>
    simp only [Statement.tokens, List.mem_cons] at hspelled
    rw [statement_assignment, assignment_eq]
    simp only [Statement.tree, leaf, Tree.leaf, violations, ← hnames]
    -- an undeclared target ends the analysis before the value is looked at
    cases (known before).symbols.typeOf? name.val.text with
    | none => simp [Step.halt?]
    | some type =>
      have hvalue : halt? (storable (known before) type name.val.position value.tree) = _ :=
        halt?_storable value fun t ht => hspelled t (.inr (.inr ht))
      simp only [Option.isSome_some, if_true, List.nil_append, Option.bind_some, ← hvalue]
      cases storable (known before) type name.val.position value.tree <;> rfl
  | expression value =>
    have hvalue := halt?_expression value hspelled (known before).symbols
    rw [statement_expression, Statement.tree, violations_phrase, ← hvalue]
    cases expression (known before).symbols value.tree <;> rfl

/-! ## Declared names -/

/-- In the value of a declaration the declared name is known. -/
theorem isSome_typeOf?_enter (s : State) (name : String) (type : ScalarType)
    (position : Option Position) (other : String) :
    ((s.enter name type position).symbols.typeOf? other).isSome = true ↔
      (s.symbols.typeOf? other).isSome = true ∨ name = other := by
  simp only [SymbolTable.typeOf?, Option.isSome_map]
  unfold State.enter SymbolTable.declare?
  cases hfind : s.symbols.find? name with
  | none =>
    simp only [Option.getD_some, SymbolTable.find?, List.find?_append, Option.isSome_or,
      Bool.or_eq_true]
    by_cases hname : name = other <;> simp [hname]
  | some symbol =>
    -- the name is known already, and the table stays as it is
    refine ⟨.inl, fun h => h.elim id ?_⟩
    rintro rfl
    simp [hfind]

/-- An expression declares nothing. -/
theorem declaredName?_phrase (value : Phrase .expression) : declaredName? value.tree = none := by
  unfold declaredName?
  split
  next heq => exact absurd (congrArg Tree.kind heq) value.kind_tree_ne_statement.1
  next => rfl

/-- A statement that is analysed to its end adds the name it declares. -/
theorem isSome_typeOf?_of_statement (d : Statement) {s s' : State} {e : Expr}
    {diagnostics : List Diagnostic} (h : statement s d.tree = .next s' e diagnostics)
    (name : String) :
    (s'.symbols.typeOf? name).isSome = true ↔
      (s.symbols.typeOf? name).isSome = true ∨ declaredName? d.tree = some name := by
  cases d with
  | declaration type target assign value =>
    have hname : declaredName? (Statement.declaration type target assign value).tree
        = some target.val.text := rfl
    obtain ⟨scalarType, -, hnext⟩ := exists_declaration_of_statement h
    rw [declaration_eq] at hnext
    rw [hname, Option.some.injEq, ← isSome_typeOf?_enter s _ scalarType target.val.position]
    -- what is stored afterwards does not touch the table
    split at hnext
    · cases hnext
    · split_ifs at hnext <;> cases hnext <;> rfl
  | assignment target assign value =>
    have hname : declaredName? (Statement.assignment target assign value).tree = none := rfl
    rw [statement_assignment, assignment_eq] at h
    split at h
    · cases h
    · split at h <;> cases h
      simp [hname, State.store]
  | expression value =>
    have hname : declaredName? (Statement.expression value).tree = none :=
      declaredName?_phrase value
    obtain ⟨rfl, -⟩ := statement_expression_eq_next_iff.1 h
    simp [hname]

end Analysis

end ScalarLang
