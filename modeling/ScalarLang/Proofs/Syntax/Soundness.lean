import ScalarLang.Proofs.Syntax.Completeness

/-!
# The parser accepts only sentences of the grammar

Whatever the parser has read of a statement is a derivation with a hole. `Open s stack ts` says so
of expressions: `ts` has been read, `stack` is what is open, and a phrase of the nonterminal `s` may
follow. Applying the operators of the stack moves the hole up; it never changes the sentence. The
invariant `Viable` adds what goes before the expression of a statement.

* `viable_step`: each token keeps the invariant.
* `exists_statement_of_step`: what a token completes is a statement of the grammar.
* `exists_derivation_of_run`: tokens that are read without errors are a sentence, and the statements
  are those of its derivation.
-/

namespace ScalarLang.Parser

open ScalarLang.Grammar ScalarLang.Parse

variable {s : Nonterminal} {cls : BinaryClass} {stack : List Frame} {ts : List Token}

/-! ## Expressions with a hole -/

/-- `ts` is the beginning of an expression, `stack` is what is open after it, and a phrase of the
nonterminal may follow. -/
inductive Open : Nonterminal → List Frame → List Token → Prop
  | bottom : Open .expression [] []
  | parens {stack : List Frame} {ts : List Token} (h : Open .unary stack ts)
      (opening : Terminal .openParen) :
      Open .expression (.parens opening.val.position :: stack) (ts ++ [opening.val])
  | unary {stack : List Frame} {ts : List Token} (h : Open .unary stack ts) (op : UnaryOp)
      (sign : Terminal (unaryOperator op)) :
      Open .unary (.unary op sign.val.position :: stack) (ts ++ [sign.val])
  /-- The right operand of an operator may follow. -/
  | right {s : Nonterminal} {cls : BinaryClass} {stack : List Frame} {ts : List Token}
      (h : Open (.chain cls) stack ts) (left : Phrase (.chain cls))
      (op : {t : Token // t.kind ∈ operators cls}) (hs : s = .operand cls) :
      Open s (.binary cls left.tree op.val :: stack) (ts ++ (left.tokens ++ [op.val]))
  /-- The first operand of a chain may follow. -/
  | operand {s : Nonterminal} {cls : BinaryClass} {stack : List Frame} {ts : List Token}
      (h : Open (.chain cls) stack ts) (hs : s = .operand cls) : Open s stack ts

namespace Open

/-- Where a chain may follow, so may an operand with unary operators. -/
theorem unary_of_chain (h : Open (.chain cls) stack ts) : Open .unary stack ts := by
  have hmult (h : Open (.chain .multiplicative) stack ts) : Open .unary stack ts := h.operand rfl
  have hadd (h : Open (.chain .additive) stack ts) : Open .unary stack ts := hmult (h.operand rfl)
  have hand (h : Open (.chain .conjunction) stack ts) : Open .unary stack ts :=
    hadd (h.operand rfl)
  cases cls with
  | disjunction => exact hand (h.operand rfl)
  | conjunction => exact hand h
  | additive => exact hadd h
  | multiplicative => exact hmult h

/-- Where the operand of a class may follow, so may an operand with unary operators. -/
theorem unary_of_operand (h : Open (.operand cls) stack ts) : Open .unary stack ts := by
  cases cls with
  | disjunction | conjunction | additive => exact h.unary_of_chain
  | multiplicative => exact h

/-- Where a chain may follow, none of its operators is applied to what is open. -/
theorem settled (h : Open (.chain cls) stack ts) : Settled cls.level stack := by
  -- the index has to be a variable for the induction; `hs` keeps what it was
  generalize hs : Nonterminal.chain cls = s at h
  induction h generalizing cls with
  | bottom => trivial
  | parens => trivial
  | @right s above stack ts h left op hs' =>
    have hlevel : cls.level = above.level + 1 := by rw [← level_operand, ← hs', ← hs, level]
    exact hlevel ▸ Nat.lt_succ_self _
  | @operand s above stack ts h hs' ih =>
    have hlevel : cls.level = above.level + 1 := by rw [← level_operand, ← hs', ← hs, level]
    exact (ih rfl).mono (hlevel ▸ Nat.le_succ _)
  | unary => cases hs

/-- A unary operator on top of the stack is the last token. -/
theorem of_unary {op : UnaryOp} {position : Option Position}
    (h : Open .unary (.unary op position :: stack) ts) :
    ∃ (before : List Token) (sign : Terminal (unaryOperator op)),
      ts = before ++ [sign.val] ∧ position = sign.val.position ∧ Open .unary stack before := by
  cases h with
  | unary h op sign => exact ⟨_, sign, rfl, rfl, h⟩
  -- a chain that may follow cannot be below a unary operator
  | operand h hs => exact h.settled.elim

/-- What is open around a whole expression: nothing, or a parenthesis. -/
theorem of_expression (h : Open .expression stack ts) :
    (stack = [] ∧ ts = []) ∨
      ∃ (before : List Token) (below : List Frame) (opening : Terminal .openParen),
        stack = .parens opening.val.position :: below ∧ ts = before ++ [opening.val] ∧
          Open .unary below before := by
  generalize hs : Nonterminal.expression = s at h
  cases h with
  | bottom => exact .inl ⟨rfl, rfl⟩
  | parens h opening => exact .inr ⟨_, _, opening, rfl, rfl, h⟩
  -- an expression is not the operand of any class
  | @right _ above _ _ h left op hs' => cases above <;> simp [Nonterminal.operand, hs'] at hs
  | @operand _ above _ _ h hs' => cases above <;> simp [Nonterminal.operand, hs'] at hs
  | unary => cases hs

/-- Applying unary operators moves the hole up. -/
theorem closeUnary (h : Open .unary stack ts) (d : Phrase .unary) :
    ∃ (stack' : List Frame) (ts' : List Token) (d' : Phrase .unary),
      Parser.closeUnary stack d.tree = (stack', d'.tree) ∧ Open .unary stack' ts' ∧
        Settled 4 stack' ∧ ts' ++ d'.tokens = ts ++ d.tokens := by
  -- along the stack, with the phrase growing by one operator each time
  induction stack generalizing ts d with
  | nil => exact ⟨[], ts, d, rfl, h, trivial, rfl⟩
  | cons frame stack ih =>
    cases frame with
    | parens position => exact ⟨_, ts, d, rfl, h, trivial, rfl⟩
    | binary cls left op =>
      have hlevel : cls.level < 4 := by cases cls <;> decide
      exact ⟨_, ts, d, rfl, h, hlevel, rfl⟩
    | unary op position =>
      obtain ⟨before, sign, rfl, rfl, hbefore⟩ := h.of_unary
      obtain ⟨stack', ts', d', hclose, hopen, hsettled, htokens⟩ := ih hbefore (.unary op sign d)
      refine ⟨stack', ts', d', hclose, hopen, hsettled, ?_⟩
      rw [htokens, Phrase.tokens, List.append_assoc, List.singleton_append]

/-- Where a chain may follow, no operator has to be applied to get there. -/
theorem closeBinary_of_level_eq (h : Open s stack ts) (d : Phrase s)
    (hlevel : cls.level = level s) :
    ∃ (stack' : List Frame) (ts' : List Token) (d' : Phrase (.chain cls)),
      Parser.closeBinary cls.level stack d.tree = (stack', d'.tree) ∧
        Open (.chain cls) stack' ts' ∧ ts' ++ d'.tokens = ts ++ d.tokens := by
  -- each level below that of unary operators belongs to one class
  obtain rfl : s = .chain cls := by
    rcases s with other | _ | _
    · cases cls <;> cases other <;> first | rfl | cases hlevel
    · cases cls <;> cases hlevel
    · cases cls <;> cases hlevel
  exact ⟨stack, ts, d, h.settled.closeBinary_eq, h, rfl⟩

/-- Applying binary operators moves the hole up to the chain of their class. -/
theorem closeBinary (h : Open s stack ts) (hsettled : Settled 4 stack) (d : Phrase s)
    (cls : BinaryClass) (hle : cls.level ≤ level s) :
    ∃ (stack' : List Frame) (ts' : List Token) (d' : Phrase (.chain cls)),
      Parser.closeBinary cls.level stack d.tree = (stack', d'.tree) ∧
        Open (.chain cls) stack' ts' ∧ ts' ++ d'.tokens = ts ++ d.tokens := by
  -- on the hole: it goes up one rule at a time, and stops at the chain of the class
  induction h with
  | bottom => exact Open.bottom.closeBinary_of_level_eq d (Nat.le_zero.1 hle)
  | parens h opening => exact (h.parens opening).closeBinary_of_level_eq d (Nat.le_zero.1 hle)
  | unary => exact hsettled.elim
  | @operand s above stack ts h hs ih =>
    subst hs
    by_cases hlevel : cls.level ≤ above.level
    · exact ih hsettled (.operand d) hlevel
    · rw [level_operand] at hle
      exact (h.operand rfl).closeBinary_of_level_eq d (by rw [level_operand]; omega)
  | @right s above stack ts h left op hs ih =>
    subst hs
    by_cases hlevel : cls.level ≤ above.level
    · -- the operator on top of the stack binds tightly enough, and takes both operands
      have hbelow : Settled 4 stack := h.settled.mono (by cases above <;> decide)
      obtain ⟨stack', ts', d', hclose, hopen, htokens⟩ := ih hbelow (.binary left op d) hlevel
      refine ⟨stack', ts', d', ?_, hopen, ?_⟩
      · rw [Parser.closeBinary, if_pos hlevel, ← hclose, left.position_tree]
        rfl
      · rw [htokens, Phrase.tokens]
        simp only [List.append_assoc, List.singleton_append]
    · rw [level_operand] at hle
      exact (h.right left op rfl).closeBinary_of_level_eq d (by rw [level_operand]; omega)

end Open

/-! ## Statements with a hole -/

/-- The tokens of a statement before its expression. -/
inductive Introduced : Purpose → List Token → Prop
  | statement : Introduced .statement []
  | declaration (type : Terminal .typeName) (name : Terminal .identifier)
      (assign : Terminal .assign) :
      Introduced (.declaration type.val name.val) [type.val, name.val, assign.val]
  | assignment (name : Terminal .identifier) (assign : Terminal .assign) :
      Introduced (.assignment name.val.text name.val.position) [name.val, assign.val]

/-- `ts` is the beginning of a statement that leads to the phase. -/
inductive Viable : Phase → List Token → Prop
  | start : Viable .start []
  | typed (type : Terminal .typeName) : Viable (.typed type.val) [type.val]
  | named (type : Terminal .typeName) (name : Terminal .identifier) :
      Viable (.named type.val name.val) [type.val, name.val]
  | operand {purpose : Purpose} {head ts : List Token} {stack : List Frame}
      (hpurpose : Introduced purpose head) (hopen : Open .unary stack ts) :
      Viable (.operand purpose stack) (head ++ ts)
  | operator {purpose : Purpose} {head ts : List Token} {stack : List Frame}
      (hpurpose : Introduced purpose head) (hopen : Open .unary stack ts)
      (hsettled : Settled 4 stack) (d : Phrase .unary) :
      Viable (.operator purpose stack d.tree) (head ++ (ts ++ d.tokens))

variable {purpose : Purpose} {head : List Token} {t : Token}

/-- An expression completes its statement. -/
theorem Introduced.exists_statement (h : Introduced purpose head) (d : Phrase .expression) :
    ∃ statement : Statement,
      statement.tokens = head ++ d.tokens ∧ statement.tree = purpose.complete d.tree := by
  cases h with
  | statement => exact ⟨.expression d, rfl, rfl⟩
  | declaration type name assign => exact ⟨.declaration type name assign d, rfl, rfl⟩
  | assignment name assign => exact ⟨.assignment name assign d, rfl, rfl⟩

/-- Before the expression of a statement nothing is open. -/
theorem Introduced.viable (h : Introduced purpose head) : Viable (.operand purpose []) head := by
  simpa using Viable.operand h Open.bottom.unary_of_chain

/-- A phrase whose tree is a variable is its name. -/
theorem tokens_of_tree_eq_var (d : Phrase s) {name : String} {position : Option Position}
    {children : List Tree} (h : d.tree = .node .var name position children) :
    ∃ t : Terminal .identifier, d.tokens = [t.val] ∧ t.val.text = name ∧
      t.val.position = position := by
  induction d with
  | operand inner ih => exact ih h
  | primary inner ih => exact ih h
  | var t =>
    cases h
    exact ⟨t, rfl, rfl, rfl⟩
  | binary | unary | number | boolean | parens => cases h

/-- A complete operand keeps the invariant. -/
theorem viable_afterOperand (hpurpose : Introduced purpose head) (hopen : Open .unary stack ts)
    (d : Phrase .primary) :
    Viable (.afterOperand purpose stack d.tree) (head ++ (ts ++ d.tokens)) := by
  obtain ⟨stack', ts', d', hclose, hopen', hsettled, htokens⟩ := hopen.closeUnary (.primary d)
  have hphase : Phase.afterOperand purpose stack d.tree = .operator purpose stack' d'.tree := by
    have hclose : closeUnary stack d.tree = (stack', d'.tree) := hclose
    rw [Phase.afterOperand, hclose]
  rw [hphase, show ts ++ d.tokens = ts' ++ d'.tokens from htokens.symm]
  exact .operator hpurpose hopen' hsettled d'

/-- A token where an operand has to follow keeps the invariant. -/
theorem viable_stepOperand (hpurpose : Introduced purpose head) (hopen : Open .unary stack ts)
    {phase : Phase} (h : Phase.stepOperand purpose stack t = .next phase) :
    Viable phase (head ++ (ts ++ [t])) := by
  unfold Phase.stepOperand at h
  split at h
  next op hop =>
    cases h
    exact .operand hpurpose (hopen.unary op ⟨t, unaryOp?_eq_some_iff.1 hop⟩)
  next =>
    split at h
    next kind hkind =>
      cases h
      -- a token by itself is a phrase
      rcases ht : t.kind <;> rw [ht] at hkind <;> cases hkind
      · exact viable_afterOperand hpurpose hopen (.number ⟨t, ht⟩)
      · exact viable_afterOperand hpurpose hopen (.boolean ⟨t, ht⟩)
      · exact viable_afterOperand hpurpose hopen (.var ⟨t, ht⟩)
    next =>
      split_ifs at h with ht
      cases h
      exact .operand hpurpose (hopen.parens ⟨t, ht⟩).unary_of_chain

/-- An operand does not complete a statement. -/
theorem stepOperand_ne_complete (tree : Tree) :
    Phase.stepOperand purpose stack t ≠ .complete tree := by
  unfold Phase.stepOperand
  split
  · simp
  · split
    · simp
    · split_ifs <;> simp

/-- The first token of an expression keeps the invariant. -/
theorem viable_first {phase : Phase} (hpurpose : Introduced purpose head)
    (h : Phase.stepOperand purpose [] t = .next phase) : Viable phase (head ++ [t]) :=
  viable_stepOperand hpurpose Open.bottom.unary_of_chain h

/-- How a statement goes on after a whole expression. -/
theorem stepEnd_eq_next {value : Tree} {phase : Phase}
    (h : Phase.stepEnd purpose stack value t = .next phase) :
    (∃ position below, stack = .parens position :: below ∧ t.kind = .closeParen ∧
        phase = .afterOperand purpose below (.node .parens "" position [value])) ∨
      ((∀ position below, stack ≠ .parens position :: below) ∧ t.kind = .assign ∧
        purpose = .statement ∧ ∃ name position children, value = .node .var name position children ∧
          phase = .operand (.assignment name position) []) := by
  unfold Phase.stepEnd at h
  split at h
  next position below =>
    split_ifs at h with ht
    cases h
    exact .inl ⟨position, below, rfl, ht, rfl⟩
  next hstack =>
    split at h <;> cases h
    exact .inr ⟨hstack, ‹_›, rfl, _, _, _, rfl, rfl⟩

/-- How a statement is completed. -/
theorem stepEnd_eq_complete {value tree : Tree}
    (h : Phase.stepEnd purpose stack value t = .complete tree) :
    (∀ position below, stack ≠ .parens position :: below) ∧ t.kind = .semicolon ∧
      tree = purpose.complete value := by
  unfold Phase.stepEnd at h
  split at h
  next => split_ifs at h
  next hstack =>
    split at h <;> cases h
    exact ⟨hstack, ‹_›, rfl⟩

/-- A token after a whole expression keeps the invariant. -/
theorem viable_stepEnd (hpurpose : Introduced purpose head) (hopen : Open .expression stack ts)
    (d : Phrase .expression) {phase : Phase}
    (h : Phase.stepEnd purpose stack d.tree t = .next phase) :
    Viable phase (head ++ (ts ++ d.tokens) ++ [t]) := by
  rcases hopen.of_expression with ⟨rfl, rfl⟩ | ⟨before, below, opening, rfl, rfl, hbefore⟩
  · rcases stepEnd_eq_next h with
      ⟨_, _, hstack, -⟩ | ⟨-, ht, rfl, name, position, children, htree, rfl⟩
    · cases hstack
    -- what was read as an expression turns out to be the target of an assignment
    · obtain ⟨target, htokens, rfl, rfl⟩ := tokens_of_tree_eq_var d htree
      cases hpurpose
      rw [htokens]
      exact Introduced.viable (.assignment target ⟨t, ht⟩)
  · rcases stepEnd_eq_next h with ⟨position, _, hstack, ht, rfl⟩ | ⟨hstack, -⟩
    · cases hstack
      have hviable := viable_afterOperand hpurpose hbefore (.parens opening d ⟨t, ht⟩)
      simpa [Phrase.tokens, Phrase.tree] using hviable
    · exact (hstack _ _ rfl).elim

/-- What a token after a whole expression completes is a statement of the grammar. -/
theorem exists_statement_of_stepEnd (hpurpose : Introduced purpose head)
    (hopen : Open .expression stack ts) (d : Phrase .expression) {tree : Tree}
    (h : Phase.stepEnd purpose stack d.tree t = .complete tree) :
    t.kind = .semicolon ∧
      ∃ statement : Statement,
        statement.tokens = head ++ (ts ++ d.tokens) ∧ statement.tree = tree := by
  obtain ⟨hstack, ht, rfl⟩ := stepEnd_eq_complete h
  rcases hopen.of_expression with ⟨rfl, rfl⟩ | ⟨_, below, opening, rfl, -, -⟩
  · exact ⟨ht, hpurpose.exists_statement d⟩
  · exact (hstack _ _ rfl).elim

/-- Each token that continues a statement keeps the invariant. -/
theorem viable_step {phase phase' : Phase} (hviable : Viable phase ts)
    (h : phase.step t = .next phase') : Viable phase' (ts ++ [t]) := by
  cases hviable with
  | start =>
    rw [Phase.step] at h
    split_ifs at h with ht
    · cases h
      exact .typed ⟨t, ht⟩
    · exact viable_first .statement h
  | typed type =>
    rw [Phase.step] at h
    split_ifs at h with ht
    cases h
    exact .named type ⟨t, ht⟩
  | named type name =>
    rw [Phase.step] at h
    split_ifs at h with ht
    cases h
    exact Introduced.viable (.declaration type name ⟨t, ht⟩)
  | operand hpurpose hopen =>
    rw [List.append_assoc]
    exact viable_stepOperand hpurpose hopen h
  | operator hpurpose hopen hsettled d =>
    cases hcls : binaryClass? t.kind with
    | some cls =>
      -- what has been read becomes the left operand of the new operator
      obtain ⟨stack', ts', d', hclose, hopen', htokens⟩ :=
        hopen.closeBinary hsettled d cls (by cases cls <;> decide)
      simp only [Phase.step, Phase.stepOperator, hcls, hclose] at h
      cases h
      have hright := hopen'.right d' ⟨t, binaryClass?_eq_some_iff.1 hcls⟩ rfl
      rw [← htokens]
      simpa using Viable.operand hpurpose hright.unary_of_operand
    | none =>
      -- any other token comes after a whole expression
      obtain ⟨stack', ts', d', hclose, hopen', htokens⟩ :=
        hopen.closeBinary hsettled d .disjunction (by decide)
      rw [step_operator_of_end hcls hclose] at h
      rw [← htokens]
      exact viable_stepEnd hpurpose hopen' d' h

/-- What a token completes is a statement of the grammar. -/
theorem exists_statement_of_step {phase : Phase} {tree : Tree} (hviable : Viable phase ts)
    (h : phase.step t = .complete tree) :
    t.kind = .semicolon ∧
      ∃ statement : Statement, statement.tokens = ts ∧ statement.tree = tree := by
  cases hviable with
  | start =>
    rw [Phase.step] at h
    split_ifs at h
    exact absurd h (stepOperand_ne_complete _)
  | typed | named =>
    rw [Phase.step] at h
    split_ifs at h
  | operand => exact absurd h (stepOperand_ne_complete _)
  | operator hpurpose hopen hsettled d =>
    cases hcls : binaryClass? t.kind with
    | some cls => simp only [Phase.step, Phase.stepOperator, hcls, reduceCtorEq] at h
    | none =>
      obtain ⟨stack', ts', d', hclose, hopen', htokens⟩ :=
        hopen.closeBinary hsettled d .disjunction (by decide)
      rw [step_operator_of_end hcls hclose] at h
      rw [← htokens]
      exact exists_statement_of_stepEnd hpurpose hopen' d' h

end ScalarLang.Parser

namespace ScalarLang.Parse

open ScalarLang.Grammar ScalarLang.Parser

/-! ## Whole token lists -/

/-- Reading `tail` is reaching the end of the input. -/
def Ends (tail : List Token) : Prop :=
  ∃ position, ∀ phase : Phase,
    (run phase tail).outcomes = (phase.endError? position).toList.map .error

/-- The end of a list is an end of the input. -/
theorem ends_nil : Ends [] := ⟨none, fun _ => rfl⟩

/-- The token for the end of the input is one. -/
theorem ends_endOfInput {t : Token} (ht : t.kind = .endOfInput) (ts : List Token) :
    Ends (t :: ts) := by
  refine ⟨t.position, fun phase => ?_⟩
  simp [run, Token.isComment, Token.isTerminal, Phase.terminalError?, ht]

/-- A statement that may end with the input has not begun. -/
theorem eq_nil_of_endError?_eq_none {phase : Phase} {ts : List Token} {position : Option Position}
    (hviable : Viable phase ts) (h : phase.endError? position = none) : ts = [] := by
  cases hviable with
  | start => rfl
  | typed | named | operand | operator => simp [Phase.endError?, Phase.expected?] at h

/-- Tokens that are read without errors are the rest of a sentence, and the statements are those of
its derivation. -/
theorem exists_derivation_of_run {phase : Phase} {before ts tail : List Token}
    (hviable : Viable phase before) (hts : ∀ t ∈ ts, t.Significant) (htail : Ends tail)
    (h : (run phase (ts ++ tail)).errors = []) :
    ∃ d : Derivation, d.tokens = before ++ ts ∧
      d.statements = (run phase (ts ++ tail)).statements := by
  -- over the tokens that remain; `before` is what the open statement has taken so far
  induction ts generalizing phase before with
  | nil =>
    obtain ⟨position, houtcomes⟩ := htail
    rw [List.nil_append, errors, houtcomes] at h
    rw [List.nil_append, statements, houtcomes]
    cases hend : phase.endError? position with
    | none =>
      rw [eq_nil_of_endError?_eq_none hviable hend]
      exact ⟨[], rfl, rfl⟩
    | some e => simp [hend] at h
  | cons t ts ih =>
    have ht := hts t List.mem_cons_self
    have hts' : ∀ t ∈ ts, t.Significant := fun t hmem => hts t (List.mem_cons_of_mem _ hmem)
    rw [List.cons_append] at h ⊢
    cases hstep : phase.step t with
    | next phase' =>
      rw [run_cons_of_next ht hstep] at h ⊢
      obtain ⟨d, htokens, hstatements⟩ := ih (viable_step hviable hstep) hts' h
      exact ⟨d, by rw [htokens, List.append_assoc, List.singleton_append], hstatements⟩
    | complete tree =>
      rw [run_cons_of_complete ht hstep] at h ⊢
      obtain ⟨hkind, statement, rfl, rfl⟩ := exists_statement_of_step hviable hstep
      obtain ⟨d, htokens, hstatements⟩ := ih .start hts' h
      refine ⟨(statement, ⟨t, hkind⟩) :: d, ?_, ?_⟩
      · rw [Derivation.tokens_cons, htokens, List.nil_append]
      · rw [statements_cons_ok, ← hstatements]
        rfl
    | refuse =>
      rw [run_cons_of_refuse ht hstep, errors_cons_error] at h
      cases h

end ScalarLang.Parse
