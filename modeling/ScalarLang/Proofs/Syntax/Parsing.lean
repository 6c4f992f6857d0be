import ScalarLang.Proofs.Syntax.Soundness

/-!
# What the parser accepts

The parser accepts exactly the sentences of the grammar, and builds the tree of the one derivation
that a sentence has. That there is only one follows from the parser itself: two derivations of a
sentence are both read as their trees, so they have one tree, and the tree gives the derivation back
once the tokens are known that have no node of their own.

* `outcomes_run_filter`: comments have no part in parsing.
* `Derivation.eq_of_tokens_eq`: the grammar is not ambiguous.
* `ofTokens_iff_derivation`: the parser and the grammar agree.
-/

namespace ScalarLang.Grammar

/-! ## The length of a sentence -/

/-- The number of tokens that a node adds to those of its children. -/
def ownTokens : NodeKind → Nat
  | .binary _ => 0
  | .parens => 2
  | _ => 1

/-- The number of tokens that the nodes stand for. -/
def width (nodes : List Tree) : Nat :=
  (nodes.map fun node => ownTokens node.kind).sum

@[simp] theorem width_nil : width [] = 0 := rfl

@[simp] theorem width_cons (node : Tree) (nodes : List Tree) :
    width (node :: nodes) = ownTokens node.kind + width nodes := by
  simp [width]

@[simp] theorem width_append (nodes others : List Tree) :
    width (nodes ++ others) = width nodes + width others := by
  simp [width]

/-- The tree of a phrase has the length of its sentence. -/
theorem Phrase.length_tokens {s : Nonterminal} (d : Phrase s) :
    d.tokens.length = width (Tree.forest [d.tree]) := by
  induction d with
  | operand inner ih => exact ih
  | primary inner ih => exact ih
  | number | boolean | var => rfl
  | unary op sign inner ih =>
    rw [tokens, List.length_cons, ih]
    simp +arith [tree, Tree.forest, Tree.descendants, Tree.kind, ownTokens]
  | parens opening inner closing ih =>
    rw [tokens, List.length_cons, List.length_append, ih]
    simp +arith [tree, Tree.forest, Tree.descendants, Tree.kind, ownTokens]
  | binary left op right ihl ihr =>
    rw [tokens, List.length_append, List.length_cons, ihl, ihr]
    simp +arith [tree, Tree.forest, Tree.descendants, Tree.kind, ownTokens, leaf, Tree.leaf]

/-- The tree of a statement has the length of its sentence. -/
theorem Statement.length_tokens (d : Statement) :
    d.tokens.length = width (Tree.forest [d.tree]) := by
  cases d with
  | declaration type name assign value =>
    rw [tokens, List.length_cons, List.length_cons, List.length_cons, value.length_tokens]
    simp +arith [tree, Tree.forest, Tree.descendants, Tree.kind, ownTokens, leaf, Tree.leaf]
  | assignment name assign value =>
    rw [tokens, List.length_cons, List.length_cons, value.length_tokens]
    simp +arith [tree, Tree.forest, Tree.descendants, Tree.kind, ownTokens, leaf, Tree.leaf]
  | expression value => exact value.length_tokens

/-! ## One derivation -/

/-- Whether a phrase of the nonterminal may have a node of a kind at the top of its tree. -/
def tops (s : Nonterminal) : NodeKind → Prop
  | .binary cls => Parse.level s ≤ cls.level
  | .unary _ => s ≠ .primary
  | .number | .boolean | .var | .parens => True
  | _ => False

/-- An operand of a class may have fewer nodes at the top than a chain. -/
theorem tops_chain {cls : BinaryClass} {kind : NodeKind} (h : tops (.operand cls) kind) :
    tops (.chain cls) kind := by
  cases kind with
  | binary other => exact (Nat.le_succ _).trans ((Parse.level_operand cls).symm.trans_le h)
  | unary op => exact Nonterminal.noConfusion
  | _ => exact h

namespace Phrase

/-- The node at the top of a phrase. -/
theorem tops_kind_tree {s : Nonterminal} (d : Phrase s) : tops s d.tree.kind := by
  induction d with
  | operand inner ih => exact tops_chain ih
  | primary inner ih =>
    -- the same nodes may stand at the top of both, but for the unary operators
    rw [tree]
    cases hkind : inner.tree.kind <;> rw [hkind] at ih <;> first | exact ih | simp [tops] at ih
  | binary => exact Nat.le_refl _
  | unary => exact Nonterminal.noConfusion
  | number | boolean | var | parens => trivial

/-- A node that may not stand at the top does not. -/
theorem kind_tree_ne {s : Nonterminal} (d : Phrase s) {kind : NodeKind} (h : ¬tops s kind) :
    d.tree.kind ≠ kind := by
  rintro rfl
  exact h d.tops_kind_tree

/-- An operand of a class has no operator of that class at its top. -/
theorem kind_tree_ne_binary {cls : BinaryClass} (d : Phrase (.operand cls)) :
    d.tree.kind ≠ .binary cls := by
  apply d.kind_tree_ne
  intro htop
  exact absurd ((Parse.level_operand cls).symm.trans_le htop) (Nat.not_succ_le_self _)

/-- An operand without an operator of its own has no unary operator at its top. -/
theorem kind_tree_ne_unary (d : Phrase .primary) (op : UnaryOp) : d.tree.kind ≠ .unary op := by
  apply d.kind_tree_ne
  intro htop
  exact htop rfl

/-- No expression has a statement at its top. -/
theorem kind_tree_ne_statement {s : Nonterminal} (d : Phrase s) :
    d.tree.kind ≠ .declaration ∧ d.tree.kind ≠ .assignment :=
  ⟨d.kind_tree_ne not_false, d.kind_tree_ne not_false⟩

/-- The derivation of a phrase is given by its tree and its sentence. -/
theorem eq_of_tree_eq {s : Nonterminal} (d d' : Phrase s) (htree : d.tree = d'.tree)
    (htokens : d.tokens = d'.tokens) : d = d' := by
  induction d with
  | operand inner ih =>
    cases d' with
    | operand inner' => rw [ih inner' htree htokens]
    -- both rules derive a chain, and the node at the top tells them apart
    | binary left op right => exact absurd (congrArg Tree.kind htree) inner.kind_tree_ne_binary
  | binary left op right ihl ihr =>
    cases d' with
    | operand inner => exact absurd (congrArg Tree.kind htree.symm) inner.kind_tree_ne_binary
    | binary left' op' right' =>
      simp only [tree, Tree.node.injEq, List.cons.injEq] at htree
      obtain ⟨-, -, -, hleft, -, hright, -⟩ := htree
      -- the left operands have one tree, so their sentences end at the same operator
      have hlength : left.tokens.length = left'.tokens.length := by
        rw [left.length_tokens, left'.length_tokens, hleft]
      obtain ⟨hleftTokens, hrest⟩ := List.append_inj htokens hlength
      obtain ⟨hop, hrightTokens⟩ := List.cons.inj hrest
      rw [ihl left' hleft hleftTokens, ihr right' hright hrightTokens, Subtype.ext hop]
  | unary op sign inner ih =>
    cases d' with
    | unary op' sign' inner' =>
      simp only [tree, Tree.node.injEq, NodeKind.unary.injEq, List.cons.injEq] at htree
      obtain ⟨rfl, -, -, hinner, -⟩ := htree
      obtain ⟨hsign, hrest⟩ := List.cons.inj htokens
      rw [ih inner' hinner hrest, Subtype.ext hsign]
    | primary inner' => exact absurd (congrArg Tree.kind htree.symm) (inner'.kind_tree_ne_unary op)
  | primary inner ih =>
    cases d' with
    | unary op sign inner' => exact absurd (congrArg Tree.kind htree) (inner.kind_tree_ne_unary op)
    | primary inner' => rw [ih inner' htree htokens]
  | number literal =>
    cases d' with
    | number literal' => rw [Subtype.ext (List.cons.inj htokens).1]
    | boolean | var | parens => cases congrArg Tree.kind htree
  | boolean literal =>
    cases d' with
    | boolean literal' => rw [Subtype.ext (List.cons.inj htokens).1]
    | number | var | parens => cases congrArg Tree.kind htree
  | var name =>
    cases d' with
    | var name' => rw [Subtype.ext (List.cons.inj htokens).1]
    | number | boolean | parens => cases congrArg Tree.kind htree
  | parens opening inner closing ih =>
    cases d' with
    | parens opening' inner' closing' =>
      simp only [tree, Tree.node.injEq, List.cons.injEq] at htree
      obtain ⟨-, -, -, hinner, -⟩ := htree
      obtain ⟨hopening, hrest⟩ := List.cons.inj htokens
      obtain ⟨hinnerTokens, hclosing⟩ := List.append_inj' hrest rfl
      rw [ih inner' hinner hinnerTokens, Subtype.ext hopening,
        Subtype.ext (List.cons.inj hclosing).1]
    | number | boolean | var => cases congrArg Tree.kind htree

end Phrase

/-- The derivation of a statement is given by its tree and its sentence. -/
theorem Statement.eq_of_tree_eq (d d' : Statement) (htree : d.tree = d'.tree)
    (htokens : d.tokens = d'.tokens) : d = d' := by
  -- as with chains, the node at the top tells which rule comes first
  cases d with
  | declaration type name assign value =>
    cases d' with
    | declaration type' name' assign' value' =>
      simp only [tree, Tree.node.injEq, List.cons.injEq] at htree
      simp only [tokens, List.cons.injEq] at htokens
      obtain ⟨htype, hname, hassign, hvalue⟩ := htokens
      rw [Subtype.ext htype, Subtype.ext hname, Subtype.ext hassign,
        value.eq_of_tree_eq value' htree.2.2.2.2.2.1 hvalue]
    | assignment => cases congrArg Tree.kind htree
    | expression value' =>
      exact absurd (congrArg Tree.kind htree.symm) value'.kind_tree_ne_statement.1
  | assignment name assign value =>
    cases d' with
    | declaration => cases congrArg Tree.kind htree
    | assignment name' assign' value' =>
      simp only [tree, Tree.node.injEq, List.cons.injEq] at htree
      simp only [tokens, List.cons.injEq] at htokens
      obtain ⟨hname, hassign, hvalue⟩ := htokens
      rw [Subtype.ext hname, Subtype.ext hassign, value.eq_of_tree_eq value' htree.2.2.2.2.1 hvalue]
    | expression value' =>
      exact absurd (congrArg Tree.kind htree.symm) value'.kind_tree_ne_statement.2
  | expression value =>
    cases d' with
    | declaration => exact absurd (congrArg Tree.kind htree) value.kind_tree_ne_statement.1
    | assignment => exact absurd (congrArg Tree.kind htree) value.kind_tree_ne_statement.2
    | expression value' => rw [value.eq_of_tree_eq value' htree htokens]

namespace Derivation

/-- The derivation of a program is given by the trees of its statements and its sentence. -/
theorem eq_of_statements_eq (d d' : Derivation) (hstatements : d.statements = d'.statements)
    (htokens : d.tokens = d'.tokens) : d = d' := by
  induction d generalizing d' with
  | nil =>
    cases d' with
    | nil => rfl
    | cons => cases hstatements
  | cons statement d ih =>
    cases d' with
    | nil => cases hstatements
    | cons statement' d' =>
      obtain ⟨htree, hrest⟩ := List.cons.inj hstatements
      rw [tokens_cons, tokens_cons] at htokens
      -- the first statements have one tree, so their semicolons are at the same place
      have hlength : statement.1.tokens.length = statement'.1.tokens.length := by
        rw [statement.1.length_tokens, statement'.1.length_tokens]
        exact congrArg (fun tree => width (Tree.forest [tree])) htree
      obtain ⟨hstatement, hsemicolon⟩ := List.append_inj htokens hlength
      obtain ⟨hsemicolon, htail⟩ := List.cons.inj hsemicolon
      rw [ih d' hrest htail, Prod.ext (statement.1.eq_of_tree_eq _ htree hstatement)
        (Subtype.ext hsemicolon)]

/-- A sentence has one derivation. -/
theorem eq_of_tokens_eq (d d' : Derivation) (htokens : d.tokens = d'.tokens) : d = d' := by
  refine d.eq_of_statements_eq d' ?_ htokens
  -- the parser reads the sentence as the trees of either derivation
  have hd := Parse.outcomes_run_append d []
  rw [htokens, Parse.outcomes_run_append d' []] at hd
  have hinjective : Function.Injective (Except.ok : Tree → Except SyntaxError Tree) :=
    fun _ _ h => Except.ok.inj h
  exact (hinjective.list_map (List.append_cancel_right hd)).symm

end Derivation

end ScalarLang.Grammar

namespace ScalarLang.Parse

open ScalarLang.Grammar ScalarLang.Parser

/-! ## Parser and grammar -/

/-- Comments have no part in parsing. -/
theorem outcomes_run_filter (phase : Phase) (ts : List Token) :
    (run phase (ts.filter (!·.isComment))).outcomes = (run phase ts).outcomes := by
  induction ts generalizing phase with
  | nil => rfl
  | cons t ts ih =>
    by_cases hcomment : t.isComment = true
    · rw [List.filter_cons_of_neg (by simp [hcomment]), ih, run, if_pos hcomment]
    · rw [List.filter_cons_of_pos (by simp [hcomment]), run, run, if_neg hcomment, if_neg hcomment]
      split_ifs
      · rfl
      -- the comments that are left out come after the step, whatever it does
      cases phase.step t with
      | next phase' => exact ih phase'
      | complete statement => exact congrArg (.ok statement :: ·) (ih .start)
      | refuse => exact congrArg (.error (phase.refusal t) :: ·) (ih _)

/-- Comments at the end of the input have no part in parsing either. -/
theorem Ends.filter {tail : List Token} (h : Ends tail) : Ends (tail.filter (!·.isComment)) := by
  obtain ⟨position, houtcomes⟩ := h
  exact ⟨position, fun phase => (outcomes_run_filter phase tail).trans (houtcomes phase)⟩

/-- Tokens are read without errors exactly if they are a sentence, and the statements are those of
its derivation. -/
theorem run_iff_derivation {ts tail : List Token} (hts : ∀ t ∈ ts, t.isTerminal = false)
    (htail : Ends tail) (trees : List Tree) :
    (run .start (ts ++ tail)).errors = [] ∧ (run .start (ts ++ tail)).statements = trees ↔
      ∃ d : Derivation, d.tokens = ts.filter (!·.isComment) ∧ d.statements = trees := by
  -- both sides are about the tokens without comments
  have houtcomes := outcomes_run_filter .start (ts ++ tail)
  rw [List.filter_append] at houtcomes
  rw [errors, statements, ← houtcomes]
  have hsignificant : ∀ t ∈ ts.filter (!·.isComment), t.Significant := by
    intro t hmem
    obtain ⟨hmem, hcomment⟩ := List.mem_filter.1 hmem
    exact ⟨by simpa using hcomment, hts t hmem⟩
  constructor
  · rintro ⟨herrors, hstatements⟩
    obtain ⟨d, htokens, htrees⟩ := exists_derivation_of_run .start hsignificant htail.filter herrors
    exact ⟨d, htokens, htrees.trans hstatements⟩
  · rintro ⟨d, htokens, rfl⟩
    obtain ⟨position, hend⟩ := htail.filter
    have hstart : (run .start (tail.filter (!·.isComment))).outcomes = [] := hend .start
    rw [← htokens, outcomes_run_append, hstart, List.append_nil, List.filterMap_map,
      List.filterMap_map]
    exact ⟨List.filterMap_eq_nil_iff.2 fun _ _ => rfl, List.filterMap_some⟩

/-- The parser accepts exactly the sentences of the grammar, comments apart, with the tree of their
derivation. A sentence has one derivation, and below the root each node of the tree stands at the
first of the tokens that it is derived to. -/
theorem ofTokens_iff_derivation (ts : List Token) (hts : ∀ t ∈ ts, t.isTerminal = false) :
    (∀ tree : Tree, (ofTokens ts).errors = [] ∧ (ofTokens ts).tree = tree ↔
        ∃ d : Derivation, d.tokens = ts.filter (!·.isComment) ∧ d.tree = tree) ∧
      (∀ d d' : Derivation, d.tokens = ts.filter (!·.isComment) →
        d'.tokens = ts.filter (!·.isComment) → d = d') ∧
      ∀ d : Derivation, d.tokens = ts.filter (!·.isComment) →
        d.spans.map Prod.fst = d.tree.descendants ∧
          ∀ node span, (node, span) ∈ d.spans → span <:+: ts.filter (!·.isComment) ∧
            ∃ t rest, span = t :: rest ∧ node.position = t.position := by
  refine ⟨fun tree => ?_, fun d d' hd hd' => d.eq_of_tokens_eq d' (hd.trans hd'.symm), fun d hd =>
    ⟨d.map_fst_spans, fun node span hmem => ⟨hd ▸ d.infix_of_mem_spans hmem,
      d.position_of_mem_spans hmem⟩⟩⟩
  -- the root of the tree is the same for every program, so the statements decide
  have hiff := run_iff_derivation hts ends_nil
  rw [List.append_nil] at hiff
  constructor
  · rintro ⟨herrors, rfl⟩
    obtain ⟨d, htokens, hstatements⟩ := (hiff _).1 ⟨herrors, rfl⟩
    exact ⟨d, htokens, congrArg (Tree.node .program "" (some Position.start)) hstatements⟩
  · rintro ⟨d, htokens, rfl⟩
    obtain ⟨herrors, hstatements⟩ := (hiff d.statements).2 ⟨d, htokens, rfl⟩
    exact ⟨herrors, congrArg (Tree.node .program "" (some Position.start)) hstatements⟩

/-- The tokens of `a = -b; // x` and `1 - 2 * (c);`. -/
theorem exists_derivation_sample :
    let ts : List Token :=
      [⟨.identifier, "a", none⟩, ⟨.assign, "=", none⟩, ⟨.minus, "-", none⟩,
        ⟨.identifier, "b", none⟩, ⟨.semicolon, ";", none⟩, ⟨.comment, " x", none⟩,
        ⟨.number, "1", none⟩, ⟨.minus, "-", none⟩, ⟨.number, "2", none⟩, ⟨.times, "*", none⟩,
        ⟨.openParen, "(", none⟩, ⟨.identifier, "c", none⟩, ⟨.closeParen, ")", none⟩,
        ⟨.semicolon, ";", none⟩]
    (∀ t ∈ ts, t.isTerminal = false) ∧
      ∃ d : Derivation, d.tokens = ts.filter (!·.isComment) ∧ d.tree = (ofTokens ts).tree :=
  ⟨by decide, ((ofTokens_iff_derivation _ (by decide)).1 _).1 ⟨by decide, rfl⟩⟩

end ScalarLang.Parse
