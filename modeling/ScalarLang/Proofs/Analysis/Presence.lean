import ScalarLang.Proofs.Analysis.Transition
import ScalarLang.Proofs.Syntax.Layout
import ScalarLang.Report

/-!
# Analysis reads no missing node

Most children of a node are analysed as expressions, and one that is missing there makes the tree
malformed. But analysis reads the text of some children as it stands: the type and the name in a
declaration, the name in an assignment, and the operator of an additive or multiplicative operation.
Only there can a missing node leave a program without a verdict, and the parser builds no such node.

* `Tree.Present`: the children of a node that are read so are there.
* `expression_ne_missingNode`, `statement_ne_missingNode`, `run_ne_missingNode`: analysis then ends
  for another reason, if it ends early.
* `verdict_of_every_parse`: there is a verdict on the tree of every parse, and a report lacks one
  exactly if it has syntax errors.
-/

namespace ScalarLang

/-- No child of the node is missing whose text analysis reads. -/
def Tree.Present : Tree → Prop
  | .node .declaration _ _ [type, name, _] => type ≠ .missing ∧ name ≠ .missing
  | .node .assignment _ _ [name, _] => name ≠ .missing
  | .node (.binary .additive) _ _ [_, op, _] => op ≠ .missing
  | .node (.binary .multiplicative) _ _ [_, op, _] => op ≠ .missing
  | _ => True

/-- Where nothing is missing, all that is read is there. -/
theorem Tree.present_of_missing_notMem {t : Tree} (h : missing ∉ forest [t]) :
    ∀ node ∈ forest [t], node.Present := by
  intro node hnode
  have hne {kind : NodeKind} {text : String} {position : Option Position} {children : List Tree}
      (hmem : .node kind text position children ∈ forest [t]) (child : Tree)
      (hchild : child ∈ children) : child ≠ missing := by
    rintro rfl
    exact h (mem_forest_of_mem_children hchild hmem)
  unfold Present
  split
  · exact ⟨hne hnode _ (by simp), hne hnode _ (by simp)⟩
  · exact hne hnode _ (by simp)
  · exact hne hnode _ (by simp)
  · exact hne hnode _ (by simp)
  · trivial

namespace Analysis

variable {s : State} {symbols : SymbolTable} {t value : Tree}

/-- What is there in a tree is there in the children of its root. -/
theorem present_child {kind : NodeKind} {text : String} {position : Option Position}
    {children : List Tree} {child : Tree}
    (h : ∀ node ∈ Tree.forest [.node kind text position children], node.Present)
    (hchild : child ∈ children) : ∀ node ∈ Tree.forest [child], node.Present := by
  intro node hnode
  exact h node (Tree.mem_forest_node_iff.2 (.inr ⟨child, hchild, hnode⟩))

/-- What is there in a tree is there in its root. -/
theorem present_root {kind : NodeKind} {text : String} {position : Option Position}
    {children : List Tree}
    (h : ∀ node ∈ Tree.forest [.node kind text position children], node.Present) :
    (Tree.node kind text position children).Present :=
  h _ (Tree.mem_forest_node_iff.2 (.inl rfl))

/-- An operator that is there can be read. -/
theorem binaryOp_ne_missingNode {cls : BinaryClass} {text : String} {position : Option Position}
    {left op right : Tree}
    (h : (Tree.node (.binary cls) text position [left, op, right]).Present) :
    binaryOp cls op ≠ .error .missingNode := by
  unfold binaryOp
  split
  · simp
  · simp
  · split_ifs <;> simp [malformed]
  · split_ifs <;> simp [malformed]
  next hconjunction hdisjunction =>
    -- only the operators that are not looked at may be missing
    cases cls with
    | conjunction => exact (hconjunction rfl).elim
    | disjunction => exact (hdisjunction rfl).elim
    | additive | multiplicative => exact absurd rfl h

/-- An expression is analysed without reading a missing node. -/
theorem expression_ne_missingNode (symbols : SymbolTable)
    (h : ∀ node ∈ Tree.forest [t], node.Present) : expression symbols t ≠ .error .missingNode := by
  intro hmissing
  fun_induction expression symbols t with
  | case1 | case3 | case5 | case10 | case11 | case12 | case13 => simp [malformed] at hmissing
  | case2 | case4 | case6 => cases hmissing
  | case7 text p inner ih =>
    rcases bind_eq_error_iff.1 hmissing with hmissing | ⟨_, _, ⟨⟩⟩
    exact ih (present_child h List.mem_cons_self) hmissing
  | case8 op text p operand ih =>
    rcases bind_eq_error_iff.1 hmissing with hmissing | ⟨result, _, hmissing⟩
    · exact ih (present_child h List.mem_cons_self) hmissing
    rcases bind_eq_error_iff.1 hmissing with hmissing | ⟨_, _, ⟨⟩⟩
    unfold unaryExpr at hmissing
    split_ifs at hmissing
    cases hmissing
  | case9 cls text p left op right ihl ihr =>
    rcases bind_eq_error_iff.1 hmissing with hmissing | ⟨result, _, hmissing⟩
    · exact ihl (present_child h (by simp)) hmissing
    rcases bind_eq_error_iff.1 hmissing with hmissing | ⟨result, _, hmissing⟩
    · exact ihr (present_child h (by simp)) hmissing
    rcases bind_eq_error_iff.1 hmissing with hmissing | ⟨_, _, ⟨⟩⟩
    exact binaryOp_ne_missingNode (present_root h) hmissing

/-- So is the value of a variable. -/
theorem storable_ne_missingNode (s : State) (type : ScalarType) (position : Option Position)
    (h : ∀ node ∈ Tree.forest [value], node.Present) :
    storable s type position value ≠ .error .missingNode := by
  intro hmissing
  rcases bind_eq_error_iff.1 hmissing with hvalue | ⟨⟨v, diagnostics⟩, hvalue, hstored⟩
  · exact expression_ne_missingNode s.symbols h hvalue
  · cases hreport : incompatible? s type v position with
    | none => simp [hreport] at hstored
    | some d => simp [hreport] at hstored

/-- A declaration is analysed without reading a missing node, if its value is. -/
theorem declaration_ne_missingNode (s s' : State) (type : ScalarType) (name : String)
    (position : Option Position) (h : ∀ node ∈ Tree.forest [value], node.Present) :
    declaration s type name position value ≠ .halt s' .missingNode := by
  intro hmissing
  rw [declaration_eq] at hmissing
  split at hmissing
  next reason hvalue =>
    cases hmissing
    exact storable_ne_missingNode _ type position h hvalue
  next => split_ifs at hmissing

/-- An assignment is analysed without reading a missing node, if its value is. -/
theorem assignment_ne_missingNode (s s' : State) (name : String) (position : Option Position)
    (h : ∀ node ∈ Tree.forest [value], node.Present) :
    assignment s name position value ≠ .halt s' .missingNode := by
  intro hmissing
  rw [assignment_eq] at hmissing
  split at hmissing
  · cases hmissing
  next type htype =>
    split at hmissing
    next reason hvalue =>
      cases hmissing
      exact storable_ne_missingNode _ type position h hvalue
    next => cases hmissing

/-- A statement is analysed without reading a missing node. -/
theorem statement_ne_missingNode (s s' : State) (h : ∀ node ∈ Tree.forest [t], node.Present) :
    statement s t ≠ .halt s' .missingNode := by
  intro hmissing
  unfold statement at hmissing
  split at hmissing
  · simp [malformed] at hmissing
  · split at hmissing
    · exact (present_root h).1 rfl
    · split at hmissing
      next => simp [malformed] at hmissing
      next => exact (present_root h).2 rfl
      next =>
        exact declaration_ne_missingNode _ _ _ _ _ (present_child h (by simp)) hmissing
    · simp [malformed] at hmissing
  · split at hmissing
    · exact present_root h rfl
    · exact assignment_ne_missingNode _ _ _ _ (present_child h (by simp)) hmissing
    · simp [malformed] at hmissing
  · split at hmissing
    next reason hvalue =>
      cases hmissing
      exact expression_ne_missingNode s.symbols h hvalue
    next => cases hmissing

/-- A list of statements is analysed without reading a missing node. -/
theorem run_ne_missingNode (s : State) {ts : List Tree}
    (h : ∀ t ∈ ts, ∀ node ∈ Tree.forest [t], node.Present) :
    (run s ts).result ≠ .error .missingNode := by
  induction ts generalizing s with
  | nil => simp [run]
  | cons t ts ih =>
    have hts : ∀ t ∈ ts, ∀ node ∈ Tree.forest [t], node.Present :=
      fun t ht => h t (List.mem_cons_of_mem _ ht)
    intro hmissing
    rw [run] at hmissing
    cases hstep : statement s t with
    | halt s' reason =>
      rw [hstep] at hmissing
      cases hmissing
      exact statement_ne_missingNode s s' (h t List.mem_cons_self) hstep
    | next s' e diagnostics =>
      rw [hstep] at hmissing
      exact ih s' hts (Run.cons_eq_error_iff.1 hmissing)

end Analysis

namespace Verdict

/-- There is no verdict on a program only if analysis comes to a missing node. -/
theorem ofTree?_eq_none_iff {text : String} {position : Option Position} {statements : List Tree} :
    ofTree? (.node .program text position statements) = none ↔
      (Analysis.run .initial statements).result = .error .missingNode := by
  rw [ofTree?]
  generalize Analysis.run .initial statements = run
  rcases run with ⟨s, (first | _) | ⟨es, errors⟩⟩
  · simp
  · simp
  · simp

/-- There is a verdict on every tree in which all that is read is there. -/
theorem exists_ofTree?_of_present {t : Tree} (h : ∀ node ∈ Tree.forest [t], node.Present) :
    ∃ v, ofTree? t = some v := by
  apply Option.ne_none_iff_exists'.1
  cases t with
  | missing => simp [ofTree?]
  | node kind text position children =>
    by_cases hkind : kind = .program
    · subst hkind
      intro hnone
      have hchildren : ∀ t ∈ children, ∀ node ∈ Tree.forest [t], node.Present :=
        fun t ht => Analysis.present_child h ht
      exact Analysis.run_ne_missingNode .initial hchildren (ofTree?_eq_none_iff.1 hnone)
    · -- any other tree is malformed, whatever its children are
      intro hnone
      unfold ofTree? at hnone
      split at hnone
      next hroot => exact hkind (Tree.node.inj hroot).1
      next => cases hnone

end Verdict

/-! ## Reports -/

namespace Report

/-- Whether the source is rejected, where the verdict is asked only if there are no syntax errors.
There is no answer if the verdict that is asked is missing. -/
def rejected? (r : Report) : Option Bool :=
  if r.syntaxErrors.isEmpty then r.verdict.map (·.rejected) else some true

/-- There is a verdict on the tree of every parse. -/
theorem exists_verdict_of_tokens (ts : List Token) :
    ∃ v, Verdict.ofTree? (Parse.ofTokens ts).tree = some v := by
  apply Verdict.exists_ofTree?_of_present
  apply Tree.present_of_missing_notMem
  exact (Parse.isProgram_tree ts).missing_notMem

/-- What a report is made of: syntax errors alone, or a verdict alone. -/
theorem ofSource_cases (filename : String) (source : List UInt8) :
    ((ofSource filename source).syntaxErrors ≠ [] ∧ (ofSource filename source).verdict = none) ∨
      ((ofSource filename source).syntaxErrors = [] ∧
        ∃ v, (ofSource filename source).verdict = some v) := by
  unfold ofSource
  by_cases herrors : (Parse.ofSource source).errors = []
  · refine .inr ?_
    simp only [herrors, List.isEmpty_nil, if_true, true_and]
    exact exists_verdict_of_tokens _
  · refine .inl ?_
    simp [herrors]

/-- Nothing that is read is missing. Whatever the tokens are, the parser builds a tree that is laid
out as a program and in which nothing is missing, and there is a verdict on that tree. So a report
on a source lacks a verdict exactly if it has syntax errors, and the verdict is there whenever it is
asked whether the source is rejected. -/
theorem verdict_of_every_parse :
    (∀ ts : List Token, (Parse.ofTokens ts).tree.IsProgram ∧
        Tree.missing ∉ Tree.forest [(Parse.ofTokens ts).tree] ∧
          ∃ v, Verdict.ofTree? (Parse.ofTokens ts).tree = some v) ∧
      ∀ (filename : String) (source : List UInt8),
        ((ofSource filename source).verdict = none ↔
            (ofSource filename source).syntaxErrors ≠ []) ∧
          (ofSource filename source).rejected? = some (ofSource filename source).rejected := by
  refine ⟨fun ts => ?_, fun filename source => ?_⟩
  · have hprogram := Parse.isProgram_tree ts
    exact ⟨hprogram, hprogram.missing_notMem, exists_verdict_of_tokens ts⟩
  · rcases ofSource_cases filename source with ⟨herrors, hverdict⟩ | ⟨herrors, v, hverdict⟩
    · exact ⟨iff_of_true hverdict herrors, by simp [rejected?, rejected, herrors]⟩
    · exact ⟨by simp [hverdict, herrors], by simp [rejected?, rejected, herrors, hverdict]⟩

end Report

end ScalarLang
