import Mathlib.Tactic
import ScalarLang.Proofs.Syntax.Grammar
import ScalarLang.Tree.Parser

/-!
# The parser reads every sentence of the grammar

Reading a phrase from the phase `operand purpose stack` leaves `stack` as it was, with the tree of
the phrase as the operand that has been read. Two things may still be pending then: unary operators
on top of `stack` take the operand at once (`Phase.afterOperand`), and binary operators inside the
phrase are applied only when a later token shows that they take no more (`closeBinary`). `Reads`
says both, by the nonterminal of the phrase.

* `reads_phrase`: each phrase is read as its tree.
* `run_statement`: so is each statement, up to its semicolon.
* `outcomes_run_append`: a program is read as its statements.
-/

namespace ScalarLang

/-- A token that has a part in the syntax and does not end the stream. -/
def Token.Significant (t : Token) : Prop :=
  t.isComment = false ∧ t.isTerminal = false

/-- All but three kinds of tokens are significant. -/
theorem Token.significant_iff {t : Token} :
    t.Significant ↔ t.kind ≠ .comment ∧ t.kind ≠ .error ∧ t.kind ≠ .endOfInput := by
  simp [Token.Significant, Token.isComment, Token.isTerminal]

namespace Parser

open Grammar

/-! ## What is open -/

/-- Whether an operand on top of the stack stays there until an operator that binds less tightly
than `level` follows. -/
def Settled (level : Nat) : List Frame → Prop
  | .unary _ _ :: _ => False
  | .binary cls _ _ :: _ => cls.level < level
  | _ => True

variable {stack : List Frame} {value : Tree} {level : Nat}

/-- A stack that is settled at a level is settled at each tighter one. -/
theorem Settled.mono {tighter : Nat} (h : Settled level stack) (hle : level ≤ tighter) :
    Settled tighter stack := by
  match stack, h with
  | [], _ => trivial
  | .parens _ :: _, _ => trivial
  | .binary _ _ _ :: _, h => exact Nat.lt_of_lt_of_le h hle

/-- No unary operator takes the operand. -/
theorem Settled.closeUnary_eq (h : Settled level stack) :
    closeUnary stack value = (stack, value) := by
  match stack, h with
  | [], _ => rfl
  | .parens _ :: _, _ => rfl
  | .binary _ _ _ :: _, _ => rfl

/-- No binary operator takes the operand. -/
theorem Settled.closeBinary_eq (h : Settled level stack) :
    closeBinary level stack value = (stack, value) := by
  match stack, h with
  | [], _ => rfl
  | .parens _ :: _, _ => rfl
  | .binary _ _ _ :: _, h => rw [closeBinary, if_neg (Nat.not_le.2 h)]

/-- Tighter operators may be applied first. -/
theorem closeBinary_of_closeBinary {low high : Nat} (hle : low ≤ high) {stack' : List Frame}
    {value' : Tree} (h : closeBinary high stack value = (stack', value')) :
    closeBinary low stack value = closeBinary low stack' value' := by
  fun_induction closeBinary high stack value with
  -- an operator that is applied at the tighter level is applied at the other one too
  | case1 value cls left op stack hlevel ih =>
    rw [closeBinary, if_pos (Nat.le_trans hle hlevel), ih h]
  | case2 | case3 => cases h; rfl

/-- Both kinds of operators leave an operand between parentheses alone. -/
theorem settled_parens {position : Option Position} : Settled level (.parens position :: stack) :=
  trivial

/-! ## Single tokens -/

/-- A class has the operators of the grammar. -/
theorem binaryClass?_eq_some_iff {kind : Token.Kind} {cls : BinaryClass} :
    binaryClass? kind = some cls ↔ kind ∈ operators cls := by
  cases kind <;> cases cls <;> decide

/-- A unary operator is the token of the grammar. -/
theorem unaryOp?_eq_some_iff {kind : Token.Kind} {op : UnaryOp} :
    unaryOp? kind = some op ↔ kind = unaryOperator op := by
  cases kind <;> cases op <;> decide

end Parser

namespace Parse

open ScalarLang.Parser ScalarLang.Grammar

@[simp] theorem errors_cons_error (e : SyntaxError) (p : Parse) :
    (p.cons (.error e)).errors = e :: p.errors := rfl

@[simp] theorem statements_cons_ok (statement : Tree) (p : Parse) :
    (p.cons (.ok statement)).statements = statement :: p.statements := rfl

variable {phase phase' : Phase} {purpose : Purpose} {stack : List Frame} {value : Tree} {t : Token}

/-- A token that continues a statement. -/
theorem run_cons_of_next (ht : t.Significant) (h : phase.step t = .next phase')
    (rest : List Token) : run phase (t :: rest) = run phase' rest := by
  rw [run, ht.1, ht.2, h]
  rfl

/-- A token that completes a statement. -/
theorem run_cons_of_complete {statement : Tree} (ht : t.Significant)
    (h : phase.step t = .complete statement) (rest : List Token) :
    run phase (t :: rest) = (run .start rest).cons (.ok statement) := by
  rw [run, ht.1, ht.2, h]
  rfl

/-- A token that is refused. -/
theorem run_cons_of_refuse (ht : t.Significant) (h : phase.step t = .refuse) (rest : List Token) :
    run phase (t :: rest)
      = (run (Phase.recover t) rest).cons (.error (phase.refusal t)) := by
  rw [run, ht.1, ht.2, h]
  rfl

/-- A comment is passed over. -/
theorem run_cons_of_comment (ht : t.isComment = true) (phase : Phase) (rest : List Token) :
    run phase (t :: rest) = run phase rest := by
  rw [run, if_pos ht]

/-- Nothing is read behind the token that ends the stream. -/
theorem run_cons_of_terminal (ht : t.isTerminal = true) (phase : Phase) (rest : List Token) :
    run phase (t :: rest) = ⟨(phase.terminalError? t).toList.map .error, rest⟩ := by
  have hcomment : ¬t.isComment = true := by
    simp only [Token.isTerminal, Bool.or_eq_true, decide_eq_true_eq] at ht
    rcases ht with hkind | hkind <;> simp [Token.isComment, hkind]
  rw [run, if_neg hcomment, if_pos ht]

/-- A unary operator waits for its operand. -/
theorem run_unaryOperator {op : UnaryOp} (h : t.kind = unaryOperator op) (rest : List Token) :
    run (.operand purpose stack) (t :: rest)
      = run (.operand purpose (.unary op t.position :: stack)) rest := by
  refine run_cons_of_next (Token.significant_iff.2 ?_) ?_ rest
  · cases op <;> simp [h, unaryOperator]
  · simp [Phase.step, Phase.stepOperand, unaryOp?_eq_some_iff.2 h]

/-- A literal or name is an operand. -/
theorem run_leaf {kind : NodeKind} (h : leafKind? t.kind = some kind) (rest : List Token) :
    run (.operand purpose stack) (t :: rest)
      = run (.afterOperand purpose stack (leaf kind t)) rest := by
  refine run_cons_of_next (Token.significant_iff.2 ?_) ?_ rest
  · rcases hkind : t.kind <;> rw [hkind] at h <;> simp [leafKind?] at h ⊢
  -- unary operators are looked for first, and no literal or name is one
  · have hunary : unaryOp? t.kind = none := by
      rcases hkind : t.kind <;> rw [hkind] at h <;> simp [leafKind?] at h ⊢ <;> rfl
    simp [Phase.step, Phase.stepOperand, hunary, h, leaf]

/-- A parenthesis opens. -/
theorem run_openParen (h : t.kind = .openParen) (rest : List Token) :
    run (.operand purpose stack) (t :: rest)
      = run (.operand purpose (.parens t.position :: stack)) rest := by
  refine run_cons_of_next (Token.significant_iff.2 (by simp [h])) ?_ rest
  simp [Phase.step, Phase.stepOperand, h, unaryOp?, leafKind?]

/-- A binary operator takes the operands on its left that bind at least as tightly. -/
theorem run_operator {cls : BinaryClass} {stack' : List Frame} {value' : Tree}
    (h : t.kind ∈ operators cls) (hclose : closeBinary cls.level stack value = (stack', value'))
    (rest : List Token) :
    run (.operator purpose stack value) (t :: rest)
      = run (.operand purpose (.binary cls value' t :: stack')) rest := by
  refine run_cons_of_next (Token.significant_iff.2 ?_) ?_ rest
  · cases cls <;> simp only [operators, List.mem_cons, List.not_mem_nil, or_false] at h
    · simp [h]
    · simp [h]
    · rcases h with h | h <;> simp [h]
    · rcases h with h | h | h <;> simp [h]
  · simp [Phase.step, Phase.stepOperator, binaryClass?_eq_some_iff.2 h, hclose]

/-- What a token other than an operator does is said of the whole expression before it. -/
theorem step_operator_of_end {stack' : List Frame} {value' : Tree} (h : binaryClass? t.kind = none)
    (hclose : closeBinary 0 stack value = (stack', value')) :
    (Phase.operator purpose stack value).step t = Phase.stepEnd purpose stack' value' t := by
  simp [Phase.step, Phase.stepOperator, h, hclose]

/-- A parenthesis closes. -/
theorem run_closeParen {stack' : List Frame} {value' : Tree} {position : Option Position}
    (h : t.kind = .closeParen)
    (hclose : closeBinary 0 stack value = (.parens position :: stack', value'))
    (rest : List Token) :
    run (.operator purpose stack value) (t :: rest)
      = run (.afterOperand purpose stack' (.node .parens "" position [value'])) rest := by
  refine run_cons_of_next (Token.significant_iff.2 (by simp [h])) ?_ rest
  rw [step_operator_of_end (by rw [h]; rfl) hclose]
  simp [Phase.stepEnd, h]

/-- A semicolon completes the statement. -/
theorem run_semicolon {value' : Tree} (h : t.kind = .semicolon)
    (hclose : closeBinary 0 stack value = ([], value')) (rest : List Token) :
    run (.operator purpose stack value) (t :: rest)
      = (run .start rest).cons (.ok (purpose.complete value')) := by
  refine run_cons_of_complete (Token.significant_iff.2 (by simp [h])) ?_ rest
  rw [step_operator_of_end (by rw [h]; rfl) hclose]
  simp [Phase.stepEnd, h]

/-! ## Phrases -/

/-- The level of the operators that a phrase of a nonterminal may have outside of parentheses. -/
def level : Nonterminal → Nat
  | .chain cls => cls.level
  | .unary | .primary => 4

/-- The operands of a class have tighter operators. -/
theorem level_operand (cls : BinaryClass) : level (.operand cls) = cls.level + 1 := by
  cases cls <;> rfl

/-- A chain has looser operators than its operands. -/
theorem level_le_level_operand (cls : BinaryClass) : cls.level ≤ level (.operand cls) := by
  rw [level_operand]
  exact Nat.le_succ _

/-- Where an operand has to follow, the sentence `ts` of the nonterminal is read as the operand
`tree`. A chain can be read only where its operators would be applied before those around it. -/
def Reads (ts : List Token) (tree : Tree) : Nonterminal → Prop
  | .chain cls => ∀ purpose stack, Settled cls.level stack →
      ∃ stack' value', closeBinary cls.level stack' value' = (stack, tree) ∧
        ∀ rest,
          run (.operand purpose stack) (ts ++ rest) = run (.operator purpose stack' value') rest
  | .unary | .primary => ∀ purpose stack rest,
      run (.operand purpose stack) (ts ++ rest) = run (.afterOperand purpose stack tree) rest

/-- What `Reads` says of chains holds of every nonterminal. -/
theorem Reads.exists_operator {s : Nonterminal} {ts : List Token} {tree : Tree}
    (h : Reads ts tree s) (purpose : Purpose) (hstack : Settled (level s) stack) :
    ∃ stack' value', closeBinary (level s) stack' value' = (stack, tree) ∧
      ∀ rest, run (.operand purpose stack) (ts ++ rest)
        = run (.operator purpose stack' value') rest := by
  have hafter : Phase.afterOperand purpose stack tree = .operator purpose stack tree := by
    rw [Phase.afterOperand, hstack.closeUnary_eq]
  cases s with
  | chain cls => exact h purpose stack hstack
  -- the phrase has no operator of its own, and none on the stack takes it
  | unary | primary =>
    refine ⟨stack, tree, hstack.closeBinary_eq, fun rest => ?_⟩
    rw [h purpose stack rest, hafter]

/-- One operand is a chain. -/
theorem Reads.operand {cls : BinaryClass} {ts : List Token} {tree : Tree}
    (h : Reads ts tree (.operand cls)) : Reads ts tree (.chain cls) := by
  intro purpose stack hstack
  obtain ⟨stack', value', hclose, hrun⟩ :=
    h.exists_operator purpose (hstack.mono (level_le_level_operand cls))
  refine ⟨stack', value', ?_, hrun⟩
  rw [closeBinary_of_closeBinary (level_le_level_operand cls) hclose, hstack.closeBinary_eq]

/-- A chain goes on with an operator and an operand. -/
theorem Reads.binary {cls : BinaryClass} {ts us : List Token} {op : Token} {left right : Tree}
    (hleft : Reads ts left (.chain cls)) (hop : op.kind ∈ operators cls)
    (hright : Reads us right (.operand cls)) :
    Reads (ts ++ op :: us)
      (.node (.binary cls) "" left.position [left, leaf .token op, right]) (.chain cls) := by
  intro purpose stack hstack
  obtain ⟨stack', value', hclose, hrun⟩ := hleft purpose stack hstack
  -- the left operand is now below the operator, and the right one is read on top of both
  have hsettled : Settled (level (.operand cls)) (.binary cls left op :: stack) := by
    rw [level_operand]
    exact Nat.lt_succ_self _
  obtain ⟨stack'', value'', hclose', hrun'⟩ := hright.exists_operator purpose hsettled
  refine ⟨stack'', value'', ?_, fun rest => ?_⟩
  -- applying the tighter operators first leaves this one on top, and it goes no further down
  · rw [closeBinary_of_closeBinary (level_le_level_operand cls) hclose', closeBinary,
      if_pos (Nat.le_refl _)]
    exact hstack.closeBinary_eq
  · rw [List.append_assoc, hrun, List.cons_append, run_operator hop hclose, hrun']

/-- A unary operator goes before its operand. -/
theorem Reads.unary {op : UnaryOp} {sign : Token} {ts : List Token} {tree : Tree}
    (hsign : sign.kind = unaryOperator op) (h : Reads ts tree .unary) :
    Reads (sign :: ts) (.node (.unary op) "" sign.position [tree]) .unary := by
  intro purpose stack rest
  rw [List.cons_append, run_unaryOperator hsign, h]
  rfl

/-- Parentheses go around an expression. -/
theorem Reads.parens {opening closing : Token} {ts : List Token} {tree : Tree}
    (hopening : opening.kind = .openParen) (h : Reads ts tree .expression)
    (hclosing : closing.kind = .closeParen) :
    Reads (opening :: (ts ++ [closing])) (.node .parens "" opening.position [tree]) .primary := by
  intro purpose stack rest
  obtain ⟨stack', value', hclose, hrun⟩ :=
    h purpose (.parens opening.position :: stack) settled_parens
  rw [List.cons_append, run_openParen hopening, List.append_assoc, hrun, List.cons_append,
    run_closeParen hclosing hclose]
  rfl

/-- Every phrase is read as its tree. -/
theorem reads_phrase {s : Nonterminal} (d : Phrase s) : Reads d.tokens d.tree s := by
  induction d with
  | operand inner ih => exact ih.operand
  | binary left op right ihl ihr =>
    rw [Phrase.tree, ← left.position_tree]
    exact ihl.binary op.property ihr
  | unary op sign inner ih => exact Reads.unary sign.property ih
  | primary inner ih => exact ih
  | number literal => exact fun purpose stack => run_leaf (by rw [literal.property]; rfl)
  | boolean literal => exact fun purpose stack => run_leaf (by rw [literal.property]; rfl)
  | var name => exact fun purpose stack => run_leaf (by rw [name.property]; rfl)
  | parens opening inner closing ih => exact Reads.parens opening.property ih closing.property

/-- An expression is read to the semicolon after it. -/
theorem run_expression (purpose : Purpose) (d : Phrase .expression)
    (semicolon : Terminal .semicolon) (rest : List Token) :
    run (.operand purpose []) (d.tokens ++ semicolon.val :: rest)
      = (run .start rest).cons (.ok (purpose.complete d.tree)) := by
  obtain ⟨stack, value, hclose, hrun⟩ := reads_phrase d purpose [] trivial
  rw [hrun, run_semicolon semicolon.property hclose]

/-! ## Statements and programs -/

/-- The tokens that start a phrase. -/
theorem first_kind_mem {s : Nonterminal} (d : Phrase s) :
    d.first.kind ∈ [.minus, .not, .number, .boolean, .identifier, .openParen] := by
  induction d with
  | operand inner ih => exact ih
  | primary inner ih => exact ih
  | binary left op right ih _ => exact ih
  | unary op sign inner =>
    rw [Phrase.first, sign.property]
    cases op <;> decide
  | number t | boolean t | var t => rw [Phrase.first, t.property]; decide
  | parens opening => rw [Phrase.first, opening.property]; decide

/-- A statement that does not start with a type starts as an expression does. -/
theorem run_start (ht : t.Significant) (h : t.kind ≠ .typeName) (rest : List Token) :
    run .start (t :: rest) = run (.operand .statement []) (t :: rest) := by
  rw [run, run, ht.1, ht.2, Phase.step, if_neg h, Phase.step]
  rfl

/-- A statement is read to its semicolon. -/
theorem run_statement (d : Statement) (semicolon : Terminal .semicolon) (rest : List Token) :
    run .start (d.tokens ++ semicolon.val :: rest) = (run .start rest).cons (.ok d.tree) := by
  cases d with
  | declaration type name assign value =>
    have htype : Phase.start.step type.val = .next (.typed type.val) := by
      simp [Phase.step, type.property]
    have hname : (Phase.typed type.val).step name.val = .next (.named type.val name.val) := by
      simp [Phase.step, name.property]
    have hassign : (Phase.named type.val name.val).step assign.val
        = .next (.operand (.declaration type.val name.val) []) := by
      simp [Phase.step, assign.property]
    simp only [Statement.tokens, List.cons_append]
    rw [run_cons_of_next (Token.significant_iff.2 (by simp [type.property])) htype,
      run_cons_of_next (Token.significant_iff.2 (by simp [name.property])) hname,
      run_cons_of_next (Token.significant_iff.2 (by simp [assign.property])) hassign,
      run_expression]
    rfl
  | assignment name assign value =>
    -- the name is first read as an expression, and the token after it makes it a target
    have hassign : (Phase.afterOperand .statement [] (leaf .var name.val)).step assign.val
        = .next (.operand (.assignment name.val.text name.val.position) []) := by
      have hstep : (Phase.operator .statement [] (leaf .var name.val)).step assign.val
          = Phase.stepEnd .statement [] (leaf .var name.val) assign.val :=
        step_operator_of_end (by rw [assign.property]; rfl) rfl
      refine hstep.trans ?_
      simp [Phase.stepEnd, assign.property, leaf, Tree.leaf]
    simp only [Statement.tokens, List.cons_append]
    rw [run_start (Token.significant_iff.2 (by simp [name.property])) (by simp [name.property]),
      run_leaf (by rw [name.property]; rfl),
      run_cons_of_next (Token.significant_iff.2 (by simp [assign.property])) hassign,
      run_expression]
    rfl
  | expression value =>
    -- a type would start a declaration, but no phrase starts with one
    obtain ⟨tail, htail⟩ := value.exists_tokens_eq_cons
    have hfirst := first_kind_mem value
    refine Eq.trans ?_ (run_expression .statement value semicolon rest)
    rw [Statement.tokens, htail, List.cons_append]
    refine run_start (Token.significant_iff.2 ?_) ?_ _
    · refine ⟨?_, ?_, ?_⟩ <;> intro h <;> simp [h] at hfirst
    · intro h
      simp [h] at hfirst

/-- A program is read as its statements. -/
theorem outcomes_run_append (d : Derivation) (rest : List Token) :
    (run .start (d.tokens ++ rest)).outcomes
      = d.statements.map .ok ++ (run .start rest).outcomes := by
  induction d with
  | nil => rfl
  | cons statement d ih =>
    rw [Derivation.tokens_cons, List.append_assoc, List.cons_append, run_statement]
    exact congrArg (Except.ok statement.1.tree :: ·) ih

end Parse

end ScalarLang
