import ScalarLang.Proofs.Syntax.Soundness

/-!
# The layout of parsed trees

A tree that is built by hand may have any shape. One that the parser builds is laid out as the kinds
of its nodes demand, whatever the tokens are and whether there are syntax errors or not. What that
layout is, is said by `IsExpression`, `IsStatement` and `IsProgram`; nothing may be missing in it,
and declarations and assignments stand right below the root only.

* `Phrase.isExpression_tree`, `Statement.isStatement_tree`: the trees of derivations are laid out
  so.
* `exists_statement_of_ok_mem`: each statement of a parse is the tree of a derivation.
* `isProgram_tree`: the tree of a parse is laid out so.
-/

namespace ScalarLang

namespace Tree

/-- The layout of expressions. -/
inductive IsExpression : Tree → Prop
  | var (name : String) (position : Option Position) : IsExpression (.leaf .var name position)
  | number (text : String) (position : Option Position) : IsExpression (.leaf .number text position)
  | boolean (text : String) (position : Option Position) :
      IsExpression (.leaf .boolean text position)
  | parens (text : String) (position : Option Position) {inner : Tree} (h : IsExpression inner) :
      IsExpression (.node .parens text position [inner])
  | unary (op : UnaryOp) (text : String) (position : Option Position) {operand : Tree}
      (h : IsExpression operand) : IsExpression (.node (.unary op) text position [operand])
  /-- The operator stands between its operands as a bare token. -/
  | binary (cls : BinaryClass) (text symbol : String) (position symbolPosition : Option Position)
      {left right : Tree} (hleft : IsExpression left) (hright : IsExpression right) :
      IsExpression
        (.node (.binary cls) text position [left, .leaf .token symbol symbolPosition, right])

/-- The layout of statements. The type and the name of a variable are bare tokens. -/
inductive IsStatement : Tree → Prop
  | declaration (text type name : String) (position typePosition namePosition : Option Position)
      {value : Tree} (h : IsExpression value) :
      IsStatement (.node .declaration text position
        [.leaf .token type typePosition, .leaf .token name namePosition, value])
  | assignment (text name : String) (position namePosition : Option Position) {value : Tree}
      (h : IsExpression value) :
      IsStatement (.node .assignment text position [.leaf .token name namePosition, value])
  | expression {t : Tree} (h : IsExpression t) : IsStatement t

/-- The layout of programs. -/
inductive IsProgram : Tree → Prop
  | mk (text : String) (position : Option Position) {statements : List Tree}
      (h : ∀ statement ∈ statements, IsStatement statement) :
      IsProgram (.node .program text position statements)

/-! ## The nodes of a tree -/

/-- What holds of every node if it holds of its children holds of every tree. -/
@[elab_as_elim]
theorem induction_children {P : Tree → Prop} (t : Tree) (missing : P .missing)
    (node : ∀ kind text position children, (∀ child ∈ children, P child) →
      P (.node kind text position children)) : P t :=
  match t with
  | .missing => missing
  | .node kind text position children =>
    node kind text position children fun child _ => induction_children child missing node
termination_by t
decreasing_by
  have hlt : sizeOf child < sizeOf children := List.sizeOf_lt_of_mem ‹_›
  simp only [Tree.node.sizeOf_spec]
  omega

/-- The nodes of a list of trees are those of each of them. -/
theorem mem_forest_iff {node : Tree} {ts : List Tree} :
    node ∈ forest ts ↔ ∃ t ∈ ts, node ∈ forest [t] := by
  induction ts with
  | nil => simp [forest]
  | cons t ts ih =>
    have happend : forest (t :: ts) = forest [t] ++ forest ts := forest_append [t] ts
    rw [happend, List.mem_append, ih]
    simp

/-- The nodes of a tree are its root and those of its children. -/
theorem mem_forest_node_iff {node : Tree} {kind : NodeKind} {text : String}
    {position : Option Position} {children : List Tree} :
    node ∈ forest [.node kind text position children] ↔
      node = .node kind text position children ∨ ∃ child ∈ children, node ∈ forest [child] := by
  rw [← mem_forest_iff]
  simp [forest, descendants]

/-- A tree is one of its nodes. -/
theorem self_mem_forest (t : Tree) : t ∈ forest [t] := by
  simp [forest]

/-- The children of a node are nodes too. -/
theorem mem_forest_of_mem_children {t child : Tree} {kind : NodeKind} {text : String}
    {position : Option Position} {children : List Tree} (hchild : child ∈ children)
    (h : .node kind text position children ∈ forest [t]) : child ∈ forest [t] := by
  induction t using induction_children with
  | missing => simp [forest, descendants] at h
  | node rootKind rootText rootPosition siblings ih =>
    rw [mem_forest_node_iff] at h ⊢
    rcases h with hroot | ⟨sibling, hsibling, h⟩
    · cases hroot
      exact .inr ⟨child, hchild, self_mem_forest child⟩
    · exact .inr ⟨sibling, hsibling, ih sibling hsibling h⟩

/-! ## No missing nodes -/

/-- Nothing is missing in a node if nothing is in its children. -/
theorem missing_notMem_node {kind : NodeKind} {text : String} {position : Option Position}
    {children : List Tree} (h : ∀ child ∈ children, missing ∉ forest [child]) :
    missing ∉ forest [.node kind text position children] := by
  intro hmem
  rcases mem_forest_node_iff.1 hmem with hroot | ⟨child, hchild, hmem'⟩
  · cases hroot
  · exact h child hchild hmem'

/-- Nothing is missing in a leaf. -/
theorem missing_notMem_leaf (kind : NodeKind) (text : String) (position : Option Position) :
    missing ∉ forest [.leaf kind text position] :=
  missing_notMem_node (by simp)

/-- Nothing is missing in an expression. -/
theorem IsExpression.missing_notMem {t : Tree} (h : IsExpression t) : missing ∉ forest [t] := by
  induction h with
  | var | number | boolean => exact missing_notMem_leaf _ _ _
  | parens text position h ih => exact missing_notMem_node (by simpa using ih)
  | unary op text position h ih => exact missing_notMem_node (by simpa using ih)
  | binary cls text symbol position symbolPosition hleft hright ihl ihr =>
    apply missing_notMem_node
    simpa using ⟨ihl, missing_notMem_leaf _ _ _, ihr⟩

/-- Nothing is missing in a statement. -/
theorem IsStatement.missing_notMem {t : Tree} (h : IsStatement t) : missing ∉ forest [t] := by
  cases h with
  | expression h => exact h.missing_notMem
  | declaration text type name position typePosition namePosition h =>
    apply missing_notMem_node
    simpa using ⟨missing_notMem_leaf _ _ _, missing_notMem_leaf _ _ _, h.missing_notMem⟩
  | assignment text name position namePosition h =>
    apply missing_notMem_node
    simpa using ⟨missing_notMem_leaf _ _ _, h.missing_notMem⟩

/-- Nothing is missing in a program. -/
theorem IsProgram.missing_notMem {t : Tree} (h : IsProgram t) : missing ∉ forest [t] := by
  obtain ⟨text, position, hstatements⟩ := h
  apply missing_notMem_node
  intro statement hstatement
  exact (hstatements statement hstatement).missing_notMem

end Tree

/-! ## Trees of derivations -/

namespace Grammar

/-- The tree of a phrase is laid out as an expression. -/
theorem Phrase.isExpression_tree {s : Nonterminal} (d : Phrase s) : d.tree.IsExpression := by
  induction d with
  | operand inner ih => exact ih
  | primary inner ih => exact ih
  | number literal => exact .number _ _
  | boolean literal => exact .boolean _ _
  | var name => exact .var _ _
  | unary op sign inner ih => exact .unary op _ _ ih
  | parens opening inner closing ih => exact .parens _ _ ih
  | binary left op right ihl ihr => exact .binary _ _ _ _ _ ihl ihr

/-- The tree of a statement is laid out as one. -/
theorem Statement.isStatement_tree (d : Statement) : d.tree.IsStatement := by
  cases d with
  | declaration type name assign value =>
    exact .declaration _ _ _ _ _ _ value.isExpression_tree
  | assignment name assign value => exact .assignment _ _ _ _ value.isExpression_tree
  | expression value => exact .expression value.isExpression_tree

end Grammar

/-! ## Parsed trees -/

namespace Parser

open Grammar

/-- A phase that the parser can be in: an error is being skipped, or what has been read is the
beginning of a statement. -/
def Phase.Occurs (phase : Phase) : Prop :=
  phase = .skipping ∨ ∃ before, Viable phase before

/-- Each token that is read leads to a phase that can occur. -/
theorem Phase.Occurs.next {phase phase' : Phase} {t : Token} (h : phase.Occurs)
    (hstep : phase.step t = .next phase') : phase'.Occurs := by
  rcases h with rfl | ⟨before, hviable⟩
  · -- a semicolon ends what is skipped
    rw [Phase.step] at hstep
    split_ifs at hstep <;> cases hstep
    · exact .inr ⟨[], .start⟩
    · exact .inl rfl
  · exact .inr ⟨before ++ [t], viable_step hviable hstep⟩

/-- A statement that is completed is one of the grammar. -/
theorem Phase.Occurs.exists_statement {phase : Phase} {t : Token} {tree : Tree} (h : phase.Occurs)
    (hstep : phase.step t = .complete tree) : ∃ d : Statement, d.tree = tree := by
  rcases h with rfl | ⟨before, hviable⟩
  · cases hstep
  · obtain ⟨-, d, -, hd⟩ := exists_statement_of_step hviable hstep
    exact ⟨d, hd⟩

/-- The parser goes on in a phase that can occur after an error. -/
theorem Phase.occurs_recover (t : Token) : (Phase.recover t).Occurs := by
  unfold Phase.recover
  split_ifs
  · exact .inr ⟨[], .start⟩
  · exact .inl rfl

end Parser

namespace Parse

open ScalarLang.Grammar ScalarLang.Parser

/-- Each statement that is read is one of the grammar. -/
theorem exists_statement_of_ok_mem {phase : Phase} {ts : List Token} {tree : Tree}
    (h : phase.Occurs) (htree : .ok tree ∈ (run phase ts).outcomes) :
    ∃ d : Statement, d.tree = tree := by
  fun_induction run phase ts with
  -- at the end there are errors only
  | case1 phase => simp at htree
  | case3 phase t ts hcomment hterminal => simp at htree
  | case2 phase t ts hcomment ih => exact ih h htree
  | case4 phase t ts hcomment hterminal phase' hstep ih => exact ih (h.next hstep) htree
  | case5 phase t ts hcomment hterminal statement hstep ih =>
    rcases List.mem_cons.1 htree with hhead | htail
    · cases hhead
      exact h.exists_statement hstep
    · exact ih (.inr ⟨[], .start⟩) htail
  | case6 phase t ts hcomment hterminal hstep ih =>
    rcases List.mem_cons.1 htree with hhead | htail
    · cases hhead
    · exact ih (Phase.occurs_recover t) htail

/-- The tree of a parse is laid out as a program, whatever the tokens are. -/
theorem isProgram_tree (ts : List Token) : (ofTokens ts).tree.IsProgram := by
  refine .mk _ _ fun statement hstatement => ?_
  obtain ⟨outcome, houtcome, hok⟩ := List.mem_filterMap.1 hstatement
  cases outcome with
  | error e => cases hok
  | ok tree =>
    cases hok
    obtain ⟨d, rfl⟩ := exists_statement_of_ok_mem (.inr ⟨[], .start⟩) houtcome
    exact d.isStatement_tree

end Parse

end ScalarLang
