import Mathlib.Data.List.Infix
import ScalarLang.Token
import ScalarLang.Tree

/-!
# The grammar

    program    := (statement ';')*
    statement  := TYPE ID '=' expression | ID '=' expression | expression
    expression := or
    or         := and ('||' and)*
    and        := additive ('&&' additive)*
    additive   := mult (('+' | '-') mult)*
    mult       := unary (('*' | '/' | '%') unary)*
    unary      := '-' unary | '!' unary | primary
    primary    := NUMBER | BOOLEAN | ID | '(' expression ')'

The four binary rules are one rule over the class of the operators. Its repetition is derived from
the left: what stands before the last operator is a chain of the same class.

A derivation is data. For a derivation `d` of an expression, a statement or a program,

* `d.tokens` is the sentence that it derives;
* `d.tree` is its syntax tree;
* `d.spans` pairs every node of the tree with the tokens that the node is derived to.
-/

namespace ScalarLang

namespace Tree

mutual

/-- The nodes below a tree, each before those below it. -/
def descendants : Tree → List Tree
  | missing => []
  | node _ _ _ children => forest children

/-- The nodes of all trees of a list. -/
def forest : List Tree → List Tree
  | [] => []
  | t :: ts => t :: (t.descendants ++ forest ts)

end

@[simp] theorem forest_append (ts us : List Tree) : forest (ts ++ us) = forest ts ++ forest us := by
  induction ts with
  | nil => rfl
  | cons t ts ih => rw [List.cons_append, forest, ih, forest, List.cons_append, List.append_assoc]

end Tree

namespace Grammar

/-- A token of a given kind. -/
abbrev Terminal (kind : Token.Kind) := {t : Token // t.kind = kind}

/-- What expressions and their parts are derived from. -/
inductive Nonterminal
  /-- Operands joined by operators of one class. -/
  | chain (cls : BinaryClass)
  /-- An operand below unary operators. -/
  | unary
  /-- An operand without an operator of its own. -/
  | primary
  deriving DecidableEq, Repr

namespace Nonterminal

/-- Any expression. -/
abbrev expression : Nonterminal := chain .disjunction

/-- What the operators of a class join. -/
def operand : BinaryClass → Nonterminal
  | .disjunction => chain .conjunction
  | .conjunction => chain .additive
  | .additive => chain .multiplicative
  | .multiplicative => unary

end Nonterminal

/-- The operators of a class. -/
def operators : BinaryClass → List Token.Kind
  | .disjunction => [.or]
  | .conjunction => [.and]
  | .additive => [.plus, .minus]
  | .multiplicative => [.times, .divide, .modulo]

/-- The token of a unary operator. -/
def unaryOperator : UnaryOp → Token.Kind
  | .minus => .minus
  | .not => .not

/-- The derivations from a nonterminal. -/
inductive Phrase : Nonterminal → Type
  /-- A chain of one operand. -/
  | operand {cls : BinaryClass} (inner : Phrase (.operand cls)) : Phrase (.chain cls)
  /-- A chain, an operator and one more operand. -/
  | binary {cls : BinaryClass} (left : Phrase (.chain cls))
      (op : {t : Token // t.kind ∈ operators cls}) (right : Phrase (.operand cls)) :
      Phrase (.chain cls)
  /-- A unary operator and its operand. -/
  | unary (op : UnaryOp) (sign : Terminal (unaryOperator op)) (inner : Phrase .unary) :
      Phrase .unary
  /-- No unary operator. -/
  | primary (inner : Phrase .primary) : Phrase .unary
  | number (literal : Terminal .number) : Phrase .primary
  | boolean (literal : Terminal .boolean) : Phrase .primary
  | var (name : Terminal .identifier) : Phrase .primary
  | parens (opening : Terminal .openParen) (inner : Phrase .expression)
      (closing : Terminal .closeParen) : Phrase .primary

/-- The node of a token without children. -/
def leaf (kind : NodeKind) (t : Token) : Tree :=
  .leaf kind t.text t.position

namespace Phrase

variable {s : Nonterminal}

/-- The sentence of a derivation. -/
def tokens : {s : Nonterminal} → Phrase s → List Token
  | _, operand inner => inner.tokens
  | _, binary left op right => left.tokens ++ op.val :: right.tokens
  | _, unary _ sign inner => sign.val :: inner.tokens
  | _, primary inner => inner.tokens
  | _, number literal => [literal.val]
  | _, boolean literal => [literal.val]
  | _, var name => [name.val]
  | _, parens opening inner closing => opening.val :: (inner.tokens ++ [closing.val])

/-- The first token of the sentence. -/
def first : {s : Nonterminal} → Phrase s → Token
  | _, operand inner => inner.first
  | _, binary left _ _ => left.first
  | _, unary _ sign _ => sign.val
  | _, primary inner => inner.first
  | _, number literal => literal.val
  | _, boolean literal => literal.val
  | _, var name => name.val
  | _, parens opening _ _ => opening.val

/-- The syntax tree of a derivation. Only the rules with more than one symbol and the literals and
names make nodes. -/
def tree : {s : Nonterminal} → Phrase s → Tree
  | _, operand inner => inner.tree
  | _, @binary cls left op right =>
    .node (.binary cls) "" left.first.position [left.tree, leaf .token op.val, right.tree]
  | _, unary op sign inner => .node (.unary op) "" sign.val.position [inner.tree]
  | _, primary inner => inner.tree
  | _, number literal => leaf .number literal.val
  | _, boolean literal => leaf .boolean literal.val
  | _, var name => leaf .var name.val
  | _, parens opening inner _ => .node .parens "" opening.val.position [inner.tree]

/-- The nodes of the tree, each with the tokens it is derived to. -/
def spans : {s : Nonterminal} → Phrase s → List (Tree × List Token)
  | _, operand inner => inner.spans
  | _, binary left op right =>
    ((binary left op right).tree, (binary left op right).tokens)
      :: (left.spans ++ (leaf .token op.val, [op.val]) :: right.spans)
  | _, unary op sign inner =>
    ((unary op sign inner).tree, (unary op sign inner).tokens) :: inner.spans
  | _, primary inner => inner.spans
  | _, number literal => [(leaf .number literal.val, [literal.val])]
  | _, boolean literal => [(leaf .boolean literal.val, [literal.val])]
  | _, var name => [(leaf .var name.val, [name.val])]
  | _, parens opening inner closing =>
    ((parens opening inner closing).tree, (parens opening inner closing).tokens) :: inner.spans

/-- No derivation derives the empty sentence. -/
theorem exists_tokens_eq_cons (d : Phrase s) : ∃ rest, d.tokens = d.first :: rest := by
  induction d with
  | operand inner ih => exact ih
  | primary inner ih => exact ih
  | binary left op right ih _ =>
    obtain ⟨rest, h⟩ := ih
    exact ⟨rest ++ op.val :: right.tokens, by rw [tokens, h, first, List.cons_append]⟩
  | unary | number | boolean | var | parens => exact ⟨_, rfl⟩

/-- A tree stands where its sentence starts. -/
theorem position_tree (d : Phrase s) : d.tree.position = d.first.position := by
  induction d with
  | operand inner ih => exact ih
  | primary inner ih => exact ih
  | binary | unary | number | boolean | var | parens => rfl

/-- The spans are those of the nodes of the tree. -/
theorem map_fst_spans (d : Phrase s) : d.spans.map Prod.fst = Tree.forest [d.tree] := by
  induction d with
  | operand inner ih => exact ih
  | primary inner ih => exact ih
  | number | boolean | var => rfl
  | unary op sign inner ih =>
    rw [spans, List.map_cons, ih]
    simp [tree, Tree.forest, Tree.descendants]
  | parens opening inner closing ih =>
    rw [spans, List.map_cons, ih]
    simp [tree, Tree.forest, Tree.descendants]
  | binary left op right ihl ihr =>
    rw [spans, List.map_cons, List.map_append, List.map_cons, ihl, ihr]
    simp [tree, Tree.forest, Tree.descendants, leaf, Tree.leaf]

/-- Every span is a part of the sentence. -/
theorem infix_of_mem_spans (d : Phrase s) {node : Tree} {span : List Token}
    (h : (node, span) ∈ d.spans) : span <:+: d.tokens := by
  induction d with
  | operand inner ih => exact ih h
  | primary inner ih => exact ih h
  | number | boolean | var =>
    cases List.mem_singleton.1 h
    exact List.infix_rfl
  | unary op sign inner ih =>
    rcases List.mem_cons.1 h with h | h
    · cases h
      exact List.infix_rfl
    · exact List.infix_cons (ih h)
  | parens opening inner closing ih =>
    rcases List.mem_cons.1 h with h | h
    · cases h
      exact List.infix_rfl
    · exact List.infix_cons (List.infix_append_of_infix_left (ih h))
  | binary left op right ihl ihr =>
    rcases List.mem_cons.1 h with h | h
    · cases h
      exact List.infix_rfl
    rcases List.mem_append.1 h with h | h
    · exact List.infix_append_of_infix_left (ihl h)
    -- the operator has a node of its own between those of the operands
    rcases List.mem_cons.1 h with h | h
    · cases h
      exact ⟨left.tokens, right.tokens, by simp [tokens]⟩
    · exact List.infix_append_of_infix_right (List.infix_cons (ihr h))

/-- Every node stands at the first token of its span. -/
theorem position_of_mem_spans (d : Phrase s) {node : Tree} {span : List Token}
    (h : (node, span) ∈ d.spans) : ∃ t rest, span = t :: rest ∧ node.position = t.position := by
  -- the node that a derivation makes stands at `d.first`, and its span starts there
  have hself {s : Nonterminal} (d : Phrase s) :
      ∃ t rest, d.tokens = t :: rest ∧ d.tree.position = t.position := by
    obtain ⟨rest, hrest⟩ := d.exists_tokens_eq_cons
    exact ⟨d.first, rest, hrest, d.position_tree⟩
  induction d with
  | operand inner ih => exact ih h
  | primary inner ih => exact ih h
  | number | boolean | var =>
    cases List.mem_singleton.1 h
    exact ⟨_, [], rfl, rfl⟩
  | unary op sign inner ih =>
    rcases List.mem_cons.1 h with h | h
    · cases h
      exact hself _
    · exact ih h
  | parens opening inner closing ih =>
    rcases List.mem_cons.1 h with h | h
    · cases h
      exact hself _
    · exact ih h
  | binary left op right ihl ihr =>
    rcases List.mem_cons.1 h with h | h
    · cases h
      exact hself _
    rcases List.mem_append.1 h with h | h
    · exact ihl h
    rcases List.mem_cons.1 h with h | h
    · cases h
      exact ⟨_, [], rfl, rfl⟩
    · exact ihr h

end Phrase

/-- The derivations of a statement. -/
inductive Statement
  | declaration (type : Terminal .typeName) (name : Terminal .identifier)
      (assign : Terminal .assign) (value : Phrase .expression)
  | assignment (name : Terminal .identifier) (assign : Terminal .assign)
      (value : Phrase .expression)
  | expression (value : Phrase .expression)

namespace Statement

/-- The sentence of a derivation. -/
def tokens : Statement → List Token
  | declaration type name assign value => type.val :: name.val :: assign.val :: value.tokens
  | assignment name assign value => name.val :: assign.val :: value.tokens
  | expression value => value.tokens

/-- The syntax tree of a derivation. -/
def tree : Statement → Tree
  | declaration type name _ value =>
    .node .declaration "" type.val.position
      [leaf .token type.val, leaf .token name.val, value.tree]
  | assignment name _ value =>
    .node .assignment "" name.val.position [leaf .token name.val, value.tree]
  | expression value => value.tree

/-- The nodes of the tree, each with the tokens it is derived to. -/
def spans : Statement → List (Tree × List Token)
  | declaration type name assign value =>
    ((declaration type name assign value).tree, (declaration type name assign value).tokens)
      :: (leaf .token type.val, [type.val]) :: (leaf .token name.val, [name.val]) :: value.spans
  | assignment name assign value =>
    ((assignment name assign value).tree, (assignment name assign value).tokens)
      :: (leaf .token name.val, [name.val]) :: value.spans
  | expression value => value.spans

/-- The spans are those of the nodes of the tree. -/
theorem map_fst_spans (d : Statement) : d.spans.map Prod.fst = Tree.forest [d.tree] := by
  cases d with
  | declaration type name assign value =>
    simp [spans, value.map_fst_spans, tree, Tree.forest, Tree.descendants, leaf, Tree.leaf]
  | assignment name assign value =>
    simp [spans, value.map_fst_spans, tree, Tree.forest, Tree.descendants, leaf, Tree.leaf]
  | expression value => exact value.map_fst_spans

/-- Every span is a part of the sentence. -/
theorem infix_of_mem_spans (d : Statement) {node : Tree} {span : List Token}
    (h : (node, span) ∈ d.spans) : span <:+: d.tokens := by
  cases d with
  | declaration type name assign value =>
    simp only [spans, List.mem_cons, Prod.mk.injEq] at h
    rcases h with ⟨-, rfl⟩ | ⟨-, rfl⟩ | ⟨-, rfl⟩ | h
    · exact List.infix_rfl
    · exact ⟨[], name.val :: assign.val :: value.tokens, rfl⟩
    · exact ⟨[type.val], assign.val :: value.tokens, rfl⟩
    · exact List.infix_cons (List.infix_cons (List.infix_cons (value.infix_of_mem_spans h)))
  | assignment name assign value =>
    simp only [spans, List.mem_cons, Prod.mk.injEq] at h
    rcases h with ⟨-, rfl⟩ | ⟨-, rfl⟩ | h
    · exact List.infix_rfl
    · exact ⟨[], assign.val :: value.tokens, rfl⟩
    · exact List.infix_cons (List.infix_cons (value.infix_of_mem_spans h))
  | expression value => exact value.infix_of_mem_spans h

/-- Every node stands at the first token of its span. -/
theorem position_of_mem_spans (d : Statement) {node : Tree} {span : List Token}
    (h : (node, span) ∈ d.spans) : ∃ t rest, span = t :: rest ∧ node.position = t.position := by
  cases d with
  | declaration type name assign value =>
    simp only [spans, List.mem_cons, Prod.mk.injEq] at h
    rcases h with ⟨rfl, rfl⟩ | ⟨rfl, rfl⟩ | ⟨rfl, rfl⟩ | h
    · exact ⟨_, _, rfl, rfl⟩
    · exact ⟨_, _, rfl, rfl⟩
    · exact ⟨_, _, rfl, rfl⟩
    · exact value.position_of_mem_spans h
  | assignment name assign value =>
    simp only [spans, List.mem_cons, Prod.mk.injEq] at h
    rcases h with ⟨rfl, rfl⟩ | ⟨rfl, rfl⟩ | h
    · exact ⟨_, _, rfl, rfl⟩
    · exact ⟨_, _, rfl, rfl⟩
    · exact value.position_of_mem_spans h
  | expression value => exact value.position_of_mem_spans h

end Statement

/-- The derivations of a program: its statements, each with its semicolon. -/
abbrev Derivation := List (Statement × Terminal .semicolon)

namespace Derivation

/-- The sentence of a derivation. -/
def tokens (d : Derivation) : List Token :=
  d.flatMap fun statement => statement.1.tokens ++ [statement.2.val]

/-- The syntax trees of the statements. -/
def statements (d : Derivation) : List Tree :=
  d.map fun statement => statement.1.tree

/-- The syntax tree of a derivation. -/
def tree (d : Derivation) : Tree :=
  .node .program "" (some Position.start) d.statements

/-- The nodes below the root of the tree, each with the tokens it is derived to. -/
def spans (d : Derivation) : List (Tree × List Token) :=
  d.flatMap fun statement => statement.1.spans

/-- The sentence of a statement, its semicolon and the sentence of the others. -/
@[simp] theorem tokens_cons (statement : Statement) (semicolon : Terminal .semicolon)
    (d : Derivation) :
    tokens ((statement, semicolon) :: d) = statement.tokens ++ semicolon.val :: tokens d := by
  simp [tokens]

/-- The spans are those of the nodes below the root. -/
theorem map_fst_spans (d : Derivation) : d.spans.map Prod.fst = d.tree.descendants := by
  rw [tree, Tree.descendants]
  induction d with
  | nil => rfl
  | cons statement d ih =>
    rw [spans, List.flatMap_cons, List.map_append, Statement.map_fst_spans]
    -- the program node adds nothing but its children, so the forests are just joined
    exact (congrArg _ ih).trans (Tree.forest_append [statement.1.tree] (statements d)).symm

/-- Every span is a part of the sentence. -/
theorem infix_of_mem_spans (d : Derivation) {node : Tree} {span : List Token}
    (h : (node, span) ∈ d.spans) : span <:+: d.tokens := by
  obtain ⟨statement, hmem, h⟩ := List.mem_flatMap.1 h
  refine (statement.1.infix_of_mem_spans h).trans ?_
  obtain ⟨before, after, rfl⟩ := List.append_of_mem hmem
  exact ⟨tokens before, statement.2.val :: tokens after, by simp [tokens]⟩

/-- Every node below the root stands at the first token of its span. -/
theorem position_of_mem_spans (d : Derivation) {node : Tree} {span : List Token}
    (h : (node, span) ∈ d.spans) : ∃ t rest, span = t :: rest ∧ node.position = t.position := by
  obtain ⟨statement, -, h⟩ := List.mem_flatMap.1 h
  exact statement.1.position_of_mem_spans h

end Derivation

end Grammar

end ScalarLang
