import ScalarLang.Proofs.Analysis.Presence

/-!
# Trees of any shape have a conclusive verdict

A tree that is built by hand may lack nodes anywhere, its root included. As long as none is missing
whose text analysis reads, there is a verdict, and it says one thing only: a fatal reason, errors,
or what the program is. In the last case nothing was missing after all where an expression has to
be. Every statement stands for one child of the root, and every expression in it for a node of its
own.

* `Conclusive`: a verdict says exactly one of three things.
* `Tree.Yields`: what a node stands for, node by node.
* `yields_of_expression`, `yields_of_statement`, `forall₂_yields_run`: what analysis makes of trees.
* `conclusive_of_present`: what this says of the verdicts.
-/

namespace ScalarLang

open Analysis

/-- The node is there and stands for the expression, and so it is with each operand and value in
it. -/
inductive Tree.Yields : Tree → Expr → Prop
  | number {text : String} {position : Option Position} {children : List Tree} {e : Expr}
      (h : numberLiteral? text = some e) : Yields (.node .number text position children) e
  | boolean {text : String} {position : Option Position} {children : List Tree} {e : Expr}
      (h : booleanLiteral? text = some e) : Yields (.node .boolean text position children) e
  | var {name : String} {position : Option Position} {children : List Tree} :
      Yields (.node .var name position children) (.var name)
  | parens {text : String} {position : Option Position} {inner : Tree} {e : Expr}
      (h : Yields inner e) : Yields (.node .parens text position [inner]) (.parens e)
  | unary {op : UnaryOp} {text : String} {position : Option Position} {operand : Tree} {e : Expr}
      (h : Yields operand e) : Yields (.node (.unary op) text position [operand]) (.unary op e)
  | binary {operator : BinaryOp} {text : String} {position : Option Position} {left op right : Tree}
      {l r : Expr} (hleft : Yields left l) (hright : Yields right r) :
      Yields (.node (.binary operator.cls) text position [left, op, right]) (.binary operator l r)
  | declaration {t value : Tree} {name : String} {type : ScalarType} {position : Option Position}
      {e : Expr} (h : Declares t name type position value) (hvalue : Yields value e) :
      Yields t (.declaration name type e)
  | assignment {t value : Tree} {name : String} {position : Option Position} {e : Expr}
      (h : Assigns t name position value) (hvalue : Yields value e) : Yields t (.assignment name e)

namespace Analysis

variable {s s' : State} {symbols : SymbolTable} {t : Tree} {e : Expr}
  {diagnostics : List Diagnostic}

/-- An operator that is read is one of the class of its node. -/
theorem cls_of_binaryOp {cls : BinaryClass} {op : Tree} {operator : BinaryOp}
    (h : binaryOp cls op = .ok operator) : operator.cls = cls := by
  unfold binaryOp at h
  split at h
  · cases h; rfl
  · cases h; rfl
  · split_ifs at h; cases h; rfl
  · split_ifs at h; cases h; rfl
  · cases h

/-- What an expression is analysed to is built from its nodes. -/
theorem yields_of_expression (h : expression symbols t = .ok (e, diagnostics)) : t.Yields e := by
  fun_induction expression symbols t generalizing e diagnostics with
  | case1 | case3 | case5 | case10 | case11 | case12 | case13 => cases h
  | case2 text position children literal hliteral =>
    cases h
    exact .number hliteral
  | case4 text position children literal hliteral =>
    cases h
    exact .boolean hliteral
  | case6 name position children =>
    cases h
    exact .var
  | case7 text position inner ih =>
    obtain ⟨⟨x, _⟩, hinner, ⟨⟩⟩ := bind_eq_ok_iff.1 h
    exact .parens (ih hinner)
  | case8 op text position operand ih =>
    obtain ⟨⟨x, _⟩, hoperand, h⟩ := bind_eq_ok_iff.1 h
    obtain ⟨_, hunary, ⟨⟩⟩ := bind_eq_ok_iff.1 h
    obtain ⟨rfl, -⟩ := unaryExpr_eq_ok_iff.1 hunary
    exact .unary (ih hoperand)
  | case9 cls text position left op right ihl ihr =>
    obtain ⟨⟨l, _⟩, hleft, h⟩ := bind_eq_ok_iff.1 h
    obtain ⟨⟨r, _⟩, hright, h⟩ := bind_eq_ok_iff.1 h
    obtain ⟨operator, hop, ⟨⟩⟩ := bind_eq_ok_iff.1 h
    obtain rfl := cls_of_binaryOp hop
    exact .binary (ihl hleft) (ihr hright)

/-- So it is with a value that is stored. -/
theorem yields_of_storable {type : ScalarType} {position : Option Position}
    (h : storable s type position t = .ok (e, diagnostics)) : t.Yields e :=
  yields_of_expression (storable_eq_ok_iff.1 h).1

/-- And so with a statement. -/
theorem yields_of_statement (h : statement s t = .next s' e diagnostics) : t.Yields e := by
  cases advance_of_statement h with
  | first hdeclares _ hvalue => exact .declaration hdeclares (yields_of_storable hvalue)
  | again hdeclares _ hvalue => exact .declaration hdeclares (yields_of_storable hvalue)
  | assignment hassigns _ hvalue => exact .assignment hassigns (yields_of_storable hvalue)
  | expression hvalue => exact yields_of_expression hvalue

/-- Each statement of a list gives one expression. -/
theorem forall₂_yields_run {ts : List Tree} {es : List Expr}
    (h : (run s ts).result = .ok (es, diagnostics)) : List.Forall₂ Tree.Yields ts es := by
  induction ts generalizing s es diagnostics with
  | nil =>
    cases h
    exact .nil
  | cons t ts ih =>
    obtain ⟨s', e, _, later, _, hstep, hrest, -, rfl, -⟩ := exists_of_run_cons_eq_ok h
    exact .cons (yields_of_statement hstep) (ih hrest)

end Analysis

namespace Verdict

/-- Exactly one thing is said: a fatal reason, errors, or what the program is. -/
def Conclusive (v : Verdict) : Prop :=
  (v.fatal ≠ none ∧ v.errors = [] ∧ v.program = none) ∨
    (v.fatal = none ∧ v.errors ≠ [] ∧ v.program = none) ∨
      (v.fatal = none ∧ v.errors = [] ∧ v.program ≠ none)

theorem conclusive_ofFatal (d : Diagnostic) (symbols : SymbolTable) :
    (ofFatal d symbols).Conclusive :=
  .inl ⟨Option.some_ne_none d, rfl, rfl⟩

theorem conclusive_ofStatements (es : List Expr) (errors : List Diagnostic)
    (symbols : SymbolTable) : (ofStatements es errors symbols).Conclusive := by
  cases errors with
  | nil => exact .inr (.inr ⟨rfl, rfl, Option.some_ne_none _⟩)
  | cons d errors => exact .inr (.inl ⟨rfl, List.cons_ne_nil d errors, rfl⟩)

/-- Every verdict is conclusive. -/
theorem conclusive_of_ofTree? {t : Tree} {v : Verdict} (h : ofTree? t = some v) :
    v.Conclusive := by
  cases outcome_of_ofTree? h with
  | completed => exact conclusive_ofStatements _ _ _
  | stopped | malformed => exact conclusive_ofFatal _ _

/-- A program that is accepted has the statements that the children of the root stand for. -/
theorem exists_yields_of_program {t : Tree} {v : Verdict} {p : Program} (h : ofTree? t = some v)
    (hp : v.program = some p) :
    ∃ text position children, t = .node .program text position children ∧
      List.Forall₂ Tree.Yields children p.statements := by
  cases outcome_of_ofTree? h with
  | @completed text position ts es errors hrun =>
    unfold ofStatements at hp
    split_ifs at hp
    cases hp
    exact ⟨text, position, ts, rfl, forall₂_yields_run hrun⟩
  | stopped | malformed => cases hp

/-- There is a verdict on every tree, whatever its kinds, texts and children are and wherever nodes
are missing, unless the type or name of a declaration, the name of an assignment or the operator of
an additive or multiplicative operation is missing. The verdict says exactly one of three things,
and if it says what the program is, that has one statement for each child of the root: what the
child stands for, with no operand or value missing at any depth. -/
theorem conclusive_of_present {t : Tree} (h : ∀ node ∈ Tree.forest [t], node.Present) :
    ∃ v, ofTree? t = some v ∧ v.Conclusive ∧
      ∀ p, v.program = some p → ∃ text position children,
        t = .node .program text position children ∧ p.statements.length = children.length ∧
          List.Forall₂ Tree.Yields children p.statements := by
  obtain ⟨v, hv⟩ := exists_ofTree?_of_present h
  refine ⟨v, hv, conclusive_of_ofTree? hv, fun p hp => ?_⟩
  obtain ⟨text, position, children, ht, hyields⟩ := exists_yields_of_program hv hp
  exact ⟨text, position, children, ht, hyields.length_eq.symm, hyields⟩

/-- A conjunction whose operator is missing is accepted, and a statement that is missing is a fatal
reason. An addition whose operator is missing is beyond the condition: there is no verdict on it. -/
theorem conclusive_of_present_sample :
    let operation (cls : BinaryClass) : Tree := .node (.binary cls) "" none
      [.leaf .boolean "true" none, .missing, .leaf .var "x" none]
    let declared : Tree := .node .declaration "" none
      [.leaf .token "bool" none, .leaf .token "x" none, operation .conjunction]
    let program (statement : Tree) : Tree := .node .program "" none [statement]
    (∃ v p, ofTree? (program declared) = some v ∧ v.Conclusive ∧ v.program = some p ∧
        p.statements.length = 1) ∧
      (∃ v, ofTree? (program .missing) = some v ∧ v.Conclusive ∧ v.fatal ≠ none) ∧
        ofTree? (program (operation .additive)) = none := by
  intro operation declared program
  have hdeclared : ∀ node ∈ Tree.forest [program declared], node.Present := by
    simp [program, declared, operation, Tree.leaf, Tree.forest, Tree.descendants, Tree.Present]
  have hmissing : ∀ node ∈ Tree.forest [program .missing], node.Present := by
    simp [program, Tree.forest, Tree.descendants, Tree.Present]
  refine ⟨?_, ?_, by decide +kernel⟩
  · obtain ⟨v, hv, hconclusive, hstatements⟩ := conclusive_of_present hdeclared
    have haccepted : (ofTree? (program declared)).any (·.program.isSome) = true := by decide +kernel
    rw [hv] at haccepted
    obtain ⟨p, hp⟩ := Option.isSome_iff_exists.1 haccepted
    obtain ⟨_, _, children, ht, hlength, -⟩ := hstatements p hp
    cases ht
    exact ⟨v, p, hv, hconclusive, hp, hlength⟩
  · obtain ⟨v, hv, hconclusive, -⟩ := conclusive_of_present hmissing
    cases hv
    exact ⟨_, rfl, hconclusive, Option.some_ne_none _⟩

end Verdict

end ScalarLang
