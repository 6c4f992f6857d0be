import ScalarLang.Proofs.Syntax.Completeness

/-!
# Parsing does not look at positions

The parser copies positions from tokens to trees and errors and never decides anything by them. So
if the positions of the tokens are changed, or forgotten, those of the trees and errors change in
the same way and all else stays. The change is a function `f : Position → Option Position`; what has
no position stays without one. The module introduces:

* `Token.relocate f`, `Tree.relocate f`, `SyntaxError.relocate f`: what tokens, trees and errors
  become.
* `Phase.relocate f`: what becomes of the phases of the parser, and of the parts of them.

A step of the parser goes with the change (`step_relocate`), and so does a run
(`outcomes_run_relocate`).
-/

namespace ScalarLang

variable (f : Position → Option Position)

/-! ## Tokens, trees and errors -/

/-- The token at its new position. -/
def Token.relocate (t : Token) : Token :=
  { t with position := t.position.bind f }

namespace Token

variable (t : Token)

@[simp] theorem kind_relocate : (t.relocate f).kind = t.kind := rfl

@[simp] theorem text_relocate : (t.relocate f).text = t.text := rfl

@[simp] theorem position_relocate : (t.relocate f).position = t.position.bind f := rfl

end Token

namespace Tree

mutual

/-- The tree with all its nodes at their new positions. -/
def relocate : Tree → Tree
  | missing => missing
  | node kind text position children => node kind text (position.bind f) (relocateAll children)

/-- The trees with all their nodes at their new positions. -/
def relocateAll : List Tree → List Tree
  | [] => []
  | t :: ts => t.relocate :: relocateAll ts

end

theorem relocateAll_eq_map (ts : List Tree) : relocateAll f ts = ts.map (relocate f) := by
  induction ts with
  | nil => rfl
  | cons t ts ih => rw [relocateAll, ih, List.map_cons]

@[simp] theorem relocate_node (kind : NodeKind) (text : String) (position : Option Position)
    (children : List Tree) :
    (node kind text position children).relocate f
      = node kind text (position.bind f) (children.map (relocate f)) := by
  rw [relocate, relocateAll_eq_map]

@[simp] theorem relocate_leaf (kind : NodeKind) (text : String) (position : Option Position) :
    (leaf kind text position).relocate f = leaf kind text (position.bind f) :=
  relocate_node f kind text position []

@[simp] theorem position_relocate (t : Tree) : (t.relocate f).position = t.position.bind f := by
  cases t <;> rfl

end Tree

/-- The error at its new position, or at the position of an error that has none. -/
def SyntaxError.relocate (e : SyntaxError) : SyntaxError :=
  located e.cause (f e.position)

/-- An error is relocated with the token that it is located at. -/
theorem SyntaxError.relocate_located (cause : Cause) {position : Option Position}
    (h : position ≠ none) :
    (located cause position).relocate f = located cause (position.bind f) := by
  obtain ⟨p, rfl⟩ := Option.ne_none_iff_exists'.1 h
  rfl

/-! ## The state of the parser -/

namespace Parser

/-- What is open, at its new position. -/
def Frame.relocate : Frame → Frame
  | .parens position => .parens (position.bind f)
  | .unary op position => .unary op (position.bind f)
  | .binary cls left op => .binary cls (left.relocate f) (op.relocate f)

/-- What an expression is read for, at its new position. -/
def Purpose.relocate : Purpose → Purpose
  | .statement => .statement
  | .declaration type name => .declaration (type.relocate f) (name.relocate f)
  | .assignment name position => .assignment name (position.bind f)

/-- The phase with all that has been read at its new position. -/
def Phase.relocate : Phase → Phase
  | .start => .start
  | .typed type => .typed (type.relocate f)
  | .named type name => .named (type.relocate f) (name.relocate f)
  | .operand purpose stack => .operand (purpose.relocate f) (stack.map (Frame.relocate f))
  | .operator purpose stack value =>
    .operator (purpose.relocate f) (stack.map (Frame.relocate f)) (value.relocate f)
  | .skipping => .skipping

/-- The move with its result at its new position. -/
def Move.relocate : Move → Move
  | .next phase => .next (phase.relocate f)
  | .complete statement => .complete (statement.relocate f)
  | .refuse => .refuse

/-- A statement is completed at its new position. -/
theorem Purpose.complete_relocate (purpose : Purpose) (value : Tree) :
    (purpose.relocate f).complete (value.relocate f) = (purpose.complete value).relocate f := by
  cases purpose <;> simp [Purpose.relocate, Purpose.complete]

theorem closeUnary_relocate (stack : List Frame) (value : Tree) :
    closeUnary (stack.map (Frame.relocate f)) (value.relocate f)
      = (closeUnary stack value).map (List.map (Frame.relocate f)) (Tree.relocate f) := by
  induction stack generalizing value with
  | nil => rfl
  | cons frame stack ih =>
    cases frame with
    | unary op position =>
      have hnext := ih (.node (.unary op) "" position [value])
      rw [Tree.relocate_node] at hnext
      exact hnext
    | parens | binary => rfl

theorem closeBinary_relocate (level : Nat) (stack : List Frame) (value : Tree) :
    closeBinary level (stack.map (Frame.relocate f)) (value.relocate f)
      = (closeBinary level stack value).map (List.map (Frame.relocate f)) (Tree.relocate f) := by
  induction stack generalizing value with
  | nil => rfl
  | cons frame stack ih =>
    cases frame with
    | binary cls left op =>
      rw [List.map_cons, Frame.relocate, closeBinary, closeBinary]
      split_ifs with hlevel
      · rw [← ih]
        simp
      · rfl
    | parens | unary => rfl

/-- Whether a parenthesis is open has nothing to do with positions. -/
theorem hasParens_relocate (stack : List Frame) :
    hasParens (stack.map (Frame.relocate f)) = hasParens stack := by
  induction stack with
  | nil => rfl
  | cons frame stack ih =>
    cases frame with
    | parens => rfl
    | unary | binary => exact ih

namespace Phase

theorem afterOperand_relocate (purpose : Purpose) (stack : List Frame) (value : Tree) :
    afterOperand (purpose.relocate f) (stack.map (Frame.relocate f)) (value.relocate f)
      = (afterOperand purpose stack value).relocate f := by
  simp only [afterOperand, closeUnary_relocate]
  rfl

theorem stepOperand_relocate (purpose : Purpose) (stack : List Frame) (t : Token) :
    stepOperand (purpose.relocate f) (stack.map (Frame.relocate f)) (t.relocate f)
      = (stepOperand purpose stack t).relocate f := by
  unfold stepOperand
  simp only [Token.kind_relocate, Token.text_relocate, Token.position_relocate]
  split
  · rfl
  · split
    next kind hkind =>
      rw [← Tree.relocate_leaf, afterOperand_relocate]
      rfl
    next =>
      rw [apply_ite (Move.relocate f)]
      rfl

theorem stepEnd_nil_relocate (purpose : Purpose) (value : Tree) (t : Token) :
    stepEnd (purpose.relocate f) [] (value.relocate f) (t.relocate f)
      = (stepEnd purpose [] value t).relocate f := by
  simp only [stepEnd, Token.kind_relocate]
  cases t.kind with
  | semicolon => exact congrArg Move.complete (purpose.complete_relocate f value)
  | assign =>
    cases purpose with
    | statement =>
      cases value with
      | missing => rfl
      | node kind text position children => cases kind <;> rfl
    | declaration | assignment => rfl
  | _ => rfl

theorem stepEnd_relocate (purpose : Purpose) (stack : List Frame) (value : Tree) (t : Token) :
    stepEnd (purpose.relocate f) (stack.map (Frame.relocate f)) (value.relocate f) (t.relocate f)
      = (stepEnd purpose stack value t).relocate f := by
  cases stack with
  | nil => exact stepEnd_nil_relocate f purpose value t
  | cons frame stack =>
    cases frame with
    | parens position =>
      unfold stepEnd
      rw [apply_ite (Move.relocate f), Move.relocate, ← afterOperand_relocate, Tree.relocate_node]
      rfl
    -- no other frame is looked at
    | unary | binary => exact stepEnd_nil_relocate f purpose value t

theorem stepOperator_relocate (purpose : Purpose) (stack : List Frame) (value : Tree) (t : Token) :
    stepOperator (purpose.relocate f) (stack.map (Frame.relocate f)) (value.relocate f)
        (t.relocate f)
      = (stepOperator purpose stack value t).relocate f := by
  unfold stepOperator
  simp only [Token.kind_relocate, closeBinary_relocate]
  split
  · rfl
  · exact stepEnd_relocate f _ _ _ t

/-- A step of the parser goes with the positions. -/
theorem step_relocate (phase : Phase) (t : Token) :
    (phase.relocate f).step (t.relocate f) = (phase.step t).relocate f := by
  cases phase with
  | start =>
    unfold step
    rw [apply_ite (Move.relocate f), ← stepOperand_relocate]
    rfl
  | typed | named =>
    unfold step
    rw [apply_ite (Move.relocate f)]
    rfl
  | operand purpose stack => exact stepOperand_relocate f purpose stack t
  | operator purpose stack value => exact stepOperator_relocate f purpose stack value t
  | skipping =>
    exact congrArg Move.next (apply_ite (relocate f) (t.kind = .semicolon) start skipping).symm

theorem expected?_relocate (phase : Phase) : (phase.relocate f).expected? = phase.expected? := by
  cases phase with
  | operator purpose stack value => simp only [relocate, expected?, hasParens_relocate]
  | start | typed | named | operand | skipping => rfl

variable {t : Token}

theorem refusal_relocate (phase : Phase) (ht : t.position ≠ none) :
    (phase.relocate f).refusal (t.relocate f) = (phase.refusal t).relocate f := by
  unfold refusal
  rw [expected?_relocate]
  split <;> exact (SyntaxError.relocate_located f _ ht).symm

theorem endError?_relocate (phase : Phase) {position : Option Position} (h : position ≠ none) :
    (phase.relocate f).endError? (position.bind f)
      = (phase.endError? position).map (SyntaxError.relocate f) := by
  have hexpected := expected?_relocate f phase
  cases phase with
  | start | skipping => rfl
  | typed | named | operand | operator =>
    simp only [relocate, endError?] at hexpected ⊢
    rw [hexpected]
    split <;> simp [SyntaxError.relocate_located f _ h]

theorem terminalError?_relocate (phase : Phase) (ht : t.position ≠ none) :
    (phase.relocate f).terminalError? (t.relocate f)
      = (phase.terminalError? t).map (SyntaxError.relocate f) := by
  unfold terminalError?
  rw [apply_ite (Option.map (SyntaxError.relocate f)), ← endError?_relocate f phase ht,
    Option.map_some, SyntaxError.relocate_located f _ ht]
  rfl

end Phase

end Parser

/-! ## Parses -/

namespace Parse

open ScalarLang.Parser

/-- The outcome at its new position. -/
def relocateOutcome : Except SyntaxError Tree → Except SyntaxError Tree
  | .ok statement => .ok (statement.relocate f)
  | .error e => .error (e.relocate f)

/-- A run of the parser goes with the positions, if the tokens have positions and one of them ends
the stream. -/
theorem outcomes_run_relocate {ts : List Token} (hterminal : ∃ t ∈ ts, t.isTerminal = true)
    (hpositions : ∀ t ∈ ts, t.position ≠ none) (phase : Phase) :
    (run (phase.relocate f) (ts.map (Token.relocate f))).outcomes
      = (run phase ts).outcomes.map (relocateOutcome f) := by
  induction ts generalizing phase with
  | nil => simp at hterminal
  | cons t ts ih =>
    have ht : t.position ≠ none := hpositions t List.mem_cons_self
    rw [List.map_cons]
    by_cases hend : t.isTerminal = true
    · have hend' : (t.relocate f).isTerminal = true := hend
      rw [run_cons_of_terminal hend, run_cons_of_terminal hend',
        Phase.terminalError?_relocate f phase ht]
      cases phase.terminalError? t <;> rfl
    have hrest := ih (by simpa [hend] using hterminal)
      fun u hu => hpositions u (List.mem_cons_of_mem _ hu)
    by_cases hcomment : t.isComment = true
    · have hcomment' : (t.relocate f).isComment = true := hcomment
      rw [run_cons_of_comment hcomment, run_cons_of_comment hcomment', hrest]
    have hsignificant : t.Significant := ⟨by simpa using hcomment, by simpa using hend⟩
    have hsignificant' : (t.relocate f).Significant := hsignificant
    -- both runs make the same move, and the phases behind it correspond again
    have hstep' := Phase.step_relocate f phase t
    cases hstep : phase.step t with
    | next phase' =>
      rw [hstep] at hstep'
      rw [run_cons_of_next hsignificant hstep, run_cons_of_next hsignificant' hstep', hrest]
    | complete statement =>
      rw [hstep] at hstep'
      rw [run_cons_of_complete hsignificant hstep, run_cons_of_complete hsignificant' hstep']
      exact congrArg (.ok (statement.relocate f) :: ·) (hrest .start)
    | refuse =>
      rw [hstep] at hstep'
      have hrecover : Phase.recover (t.relocate f) = (Phase.recover t).relocate f :=
        (apply_ite (Phase.relocate f) (t.kind = .semicolon) .start .skipping).symm
      rw [run_cons_of_refuse hsignificant hstep, run_cons_of_refuse hsignificant' hstep',
        Phase.refusal_relocate f phase ht, hrecover]
      exact congrArg (.error ((phase.refusal t).relocate f) :: ·) (hrest _)

/-- The statements and errors of a parse go with the positions of its tokens. -/
theorem ofTokens_relocate {ts : List Token} (hterminal : ∃ t ∈ ts, t.isTerminal = true)
    (hpositions : ∀ t ∈ ts, t.position ≠ none) :
    (ofTokens (ts.map (Token.relocate f))).statements
        = (ofTokens ts).statements.map (Tree.relocate f) ∧
      (ofTokens (ts.map (Token.relocate f))).errors
        = (ofTokens ts).errors.map (SyntaxError.relocate f) := by
  have houtcomes := outcomes_run_relocate f hterminal hpositions .start
  rw [ofTokens, ofTokens, statements, statements, errors, errors]
  rw [Phase.relocate] at houtcomes
  rw [houtcomes, List.filterMap_map, List.filterMap_map, List.map_filterMap, List.map_filterMap]
  refine ⟨List.filterMap_congr fun outcome _ => ?_, List.filterMap_congr fun outcome _ => ?_⟩
  · cases outcome <;> rfl
  · cases outcome <;> rfl

end Parse

end ScalarLang
