import ScalarLang.Proofs.Analysis.Exchange

/-!
# Parentheses around an expression are neutral

Parentheses may be put around any expression of a program: a statement that is one, the value of a
declaration or assignment, an operand at any depth. The analysis looks through them. It knows the
same of a value in parentheses as of the value itself, and it refuses a minus only before a minus of
a bare number or variable. So what was analysed to its end still is, with the same diagnostics, and
leads to the same state; what follows cannot tell the difference.

* `Turn`: the steps that lead from a statement to an expression in it.
* `Tree.enclose?`, `Expr.enclose?`: parentheses at a place, in the tree and in what it stands for.
* `exists_enclosed_of_expression`, `exists_enclosed_of_statement`: analysis goes with them.
* `Verdict.enclosed_in_parens`: what this says of the verdicts.
-/

namespace ScalarLang

/-- A step from a statement or expression to an expression right below it. -/
inductive Turn
  /-- To the value of a declaration or assignment. -/
  | value
  /-- To what is in parentheses, or behind a unary operator. -/
  | operand
  | left
  | right
  deriving DecidableEq, Repr

/-- The tree with parentheses around the expression to which the turns lead. There is none if they
lead nowhere, or to a declaration or assignment. -/
def Tree.enclose? (text : String) (position : Option Position) : List Turn → Tree → Option Tree
  | [], t =>
    if t.kind = .declaration ∨ t.kind = .assignment then none
    else some (.node .parens text position [t])
  | .value :: place, .node .declaration s p [type, name, value] =>
    (value.enclose? text position place).map fun value => .node .declaration s p [type, name, value]
  | .value :: place, .node .assignment s p [name, value] =>
    (value.enclose? text position place).map fun value => .node .assignment s p [name, value]
  | .operand :: place, .node .parens s p [inner] =>
    (inner.enclose? text position place).map fun inner => .node .parens s p [inner]
  | .operand :: place, .node (.unary op) s p [operand] =>
    (operand.enclose? text position place).map fun operand => .node (.unary op) s p [operand]
  | .left :: place, .node (.binary cls) s p [left, op, right] =>
    (left.enclose? text position place).map fun left => .node (.binary cls) s p [left, op, right]
  | .right :: place, .node (.binary cls) s p [left, op, right] =>
    (right.enclose? text position place).map fun right => .node (.binary cls) s p [left, op, right]
  | _, _ => none

/-- The expression with parentheses around the one to which the turns lead. -/
def Expr.enclose? : List Turn → Expr → Option Expr
  | [], e => some (.parens e)
  | .value :: place, .declaration name type value =>
    (value.enclose? place).map (.declaration name type)
  | .value :: place, .assignment name value => (value.enclose? place).map (.assignment name)
  | .operand :: place, .parens inner => (inner.enclose? place).map .parens
  | .operand :: place, .unary op operand => (operand.enclose? place).map (.unary op)
  | .left :: place, .binary op left right => (left.enclose? place).map (.binary op · right)
  | .right :: place, .binary op left right => (right.enclose? place).map (.binary op left)
  | _, _ => none

namespace Analysis

variable {s s' : State} {symbols : SymbolTable} {t t' value value' : Tree} {e e' : Expr}
  {diagnostics : List Diagnostic} {text : String} {position : Option Position} {place : List Turn}

/-! ## Values -/

/-- What has parentheses in it is neither a number nor a variable. -/
theorem not_atom_of_enclose? (h : e.enclose? place = some e') :
    (∀ value isInteger, e' ≠ .number value isInteger) ∧ ∀ name, e' ≠ .var name := by
  fun_induction Expr.enclose? place e generalizing e' with
  | case1 => cases h; simp
  | case8 => cases h
  | _ =>
    obtain ⟨_, -, rfl⟩ := Option.map_eq_some_iff.1 h
    simp

/-- So a minus may stand before it, if it may stand there at all. -/
theorem isMinusOfAtom_of_enclose? (h : e.enclose? place = some e') : isMinusOfAtom e' = false := by
  fun_induction Expr.enclose? place e generalizing e' with
  | case1 => cases h; rfl
  | case5 place op operand =>
    obtain ⟨operand', hoperand, rfl⟩ := Option.map_eq_some_iff.1 h
    obtain ⟨hnumber, hvar⟩ := not_atom_of_enclose? hoperand
    cases op with
    | not => rfl
    | minus =>
      cases operand' with
      | number value isInteger => exact absurd rfl (hnumber value isInteger)
      | var name => exact absurd rfl (hvar name)
      | _ => rfl
  | case8 => cases h
  | _ =>
    obtain ⟨_, -, rfl⟩ := Option.map_eq_some_iff.1 h
    rfl

/-- The same is known of a value with parentheses in it as without them. -/
theorem resolve_of_enclose? (h : e.enclose? place = some e') (symbols : SymbolTable)
    (bindings : Bindings) : resolve symbols bindings e' = resolve symbols bindings e := by
  fun_induction Expr.enclose? place e generalizing e' with
  | case1 => cases h; rfl
  | case4 place inner ih =>
    obtain ⟨inner', hinner, rfl⟩ := Option.map_eq_some_iff.1 h
    show resolve symbols bindings inner' = resolve symbols bindings inner
    exact ih hinner
  | case5 place op operand ih =>
    obtain ⟨operand', hoperand, rfl⟩ := Option.map_eq_some_iff.1 h
    cases op with
    | not => rfl
    | minus => simp only [resolve, ih hoperand]
  | case8 => cases h
  -- nothing is known of the other forms
  | _ =>
    obtain ⟨_, -, rfl⟩ := Option.map_eq_some_iff.1 h
    rfl

/-- A variable can hold a value with parentheses in it exactly if it can without them. -/
theorem incompatible?_of_enclose? (h : e.enclose? place = some e') (s : State)
    (target : ScalarType) (position : Option Position) :
    incompatible? s target e' position = incompatible? s target e position := by
  unfold incompatible?
  rw [resolve_of_enclose? h]

/-- It is then known to hold the same. -/
theorem store_of_enclose? (h : e.enclose? place = some e') (s : State) (name : String)
    (type : ScalarType) : s.store name type e' = s.store name type e := by
  unfold State.store
  rw [resolve_of_enclose? h]

/-! ## Analysis -/

/-- An expression that is analysed to its end still is with parentheses in it, with the same
diagnostics, and it stands for the same expression but for these parentheses. -/
theorem exists_enclosed_of_expression (ht : t.enclose? text position place = some t')
    (h : expression symbols t = .ok (e, diagnostics)) :
    ∃ e', expression symbols t' = .ok (e', diagnostics) ∧ e.enclose? place = some e' := by
  fun_induction Tree.enclose? text position place t generalizing t' e diagnostics with
  | case1 | case9 => cases ht
  | case2 t hkind =>
    cases ht
    exact ⟨.parens e, expression_parens_eq_ok_iff.2 ⟨e, h, rfl⟩, rfl⟩
  | case3 | case4 => simp [expression] at h
  | case5 place s p inner ih =>
    obtain ⟨inner', hinner', rfl⟩ := Option.map_eq_some_iff.1 ht
    obtain ⟨x, hx, rfl⟩ := expression_parens_eq_ok_iff.1 h
    obtain ⟨x', hx', henclosed⟩ := ih hinner' hx
    exact ⟨.parens x', expression_parens_eq_ok_iff.2 ⟨x', hx', rfl⟩,
      by simp [Expr.enclose?, henclosed]⟩
  | case6 place op s p operand ih =>
    obtain ⟨operand', hoperand', rfl⟩ := Option.map_eq_some_iff.1 ht
    obtain ⟨x, hx, rfl, -⟩ := expression_unary_eq_ok_iff.1 h
    obtain ⟨x', hx', henclosed⟩ := ih hoperand' hx
    -- a minus that was allowed is allowed before parentheses, and also where they are deeper
    have hminus : ¬(op = .minus ∧ isMinusOfAtom x' = true) := by
      simp [isMinusOfAtom_of_enclose? henclosed]
    exact ⟨.unary op x', expression_unary_eq_ok_iff.2 ⟨x', hx', rfl, hminus⟩,
      by simp [Expr.enclose?, henclosed]⟩
  | case7 place cls s p left op right ih =>
    obtain ⟨left', hleft', rfl⟩ := Option.map_eq_some_iff.1 ht
    obtain ⟨l, r, _, _, operator, hl, hr, hop, rfl, rfl⟩ := expression_binary_eq_ok_iff.1 h
    obtain ⟨l', hl', henclosed⟩ := ih hleft' hl
    exact ⟨.binary operator l' r,
      expression_binary_eq_ok_iff.2 ⟨l', r, _, _, operator, hl', hr, hop, rfl, rfl⟩,
      by simp [Expr.enclose?, henclosed]⟩
  | case8 place cls s p left op right ih =>
    obtain ⟨right', hright', rfl⟩ := Option.map_eq_some_iff.1 ht
    obtain ⟨l, r, _, _, operator, hl, hr, hop, rfl, rfl⟩ := expression_binary_eq_ok_iff.1 h
    obtain ⟨r', hr', henclosed⟩ := ih hright' hr
    exact ⟨.binary operator l r',
      expression_binary_eq_ok_iff.2 ⟨l, r', _, _, operator, hl, hr', hop, rfl, rfl⟩,
      by simp [Expr.enclose?, henclosed]⟩

/-- So does a value that is stored. -/
theorem exists_enclosed_of_storable {type : ScalarType} {p : Option Position}
    (hvalue : value.enclose? text position place = some value')
    (h : storable s type p value = .ok (e, diagnostics)) :
    ∃ e', storable s type p value' = .ok (e', diagnostics) ∧ e.enclose? place = some e' := by
  obtain ⟨hexpression, hreport⟩ := storable_eq_ok_iff.1 h
  obtain ⟨e', hexpression', henclosed⟩ := exists_enclosed_of_expression hvalue hexpression
  rw [← incompatible?_of_enclose? henclosed] at hreport
  exact ⟨e', storable_eq_ok_iff.2 ⟨hexpression', hreport⟩, henclosed⟩

/-- In a declaration there can be parentheses in the value only. -/
theorem Declares.exists_value_of_enclose? {name : String} {type : ScalarType} {p : Option Position}
    (h : Declares t name type p value) (ht : t.enclose? text position place = some t') :
    ∃ rest value', place = .value :: rest ∧ value.enclose? text position rest = some value' ∧
      Declares t' name type p value' := by
  obtain ⟨value, htype⟩ := h
  rcases place with _ | ⟨_ | _ | _ | _, rest⟩
  case cons.value =>
    obtain ⟨value', hvalue', rfl⟩ := Option.map_eq_some_iff.1 ht
    exact ⟨rest, value', rfl, hvalue', .mk value' htype⟩
  all_goals cases ht

/-- So it is in an assignment. -/
theorem Assigns.exists_value_of_enclose? {name : String} {p : Option Position}
    (h : Assigns t name p value) (ht : t.enclose? text position place = some t') :
    ∃ rest value', place = .value :: rest ∧ value.enclose? text position rest = some value' ∧
      Assigns t' name p value' := by
  obtain ⟨value⟩ := h
  rcases place with _ | ⟨_ | _ | _ | _, rest⟩
  case cons.value =>
    obtain ⟨value', hvalue', rfl⟩ := Option.map_eq_some_iff.1 ht
    exact ⟨rest, value', rfl, hvalue', .mk value'⟩
  all_goals cases ht

/-- A statement that is analysed to its end still is with parentheses in it, and it leads to the
same state. -/
theorem exists_enclosed_of_statement (ht : t.enclose? text position place = some t')
    (h : statement s t = .next s' e diagnostics) :
    ∃ e', statement s t' = .next s' e' diagnostics ∧ e.enclose? place = some e' := by
  cases advance_of_statement h with
  | @first name type p value v _ hdeclares hnew hvalue =>
    obtain ⟨rest, value', rfl, hvalue', hdeclares'⟩ := hdeclares.exists_value_of_enclose? ht
    obtain ⟨v', hstored, henclosed⟩ := exists_enclosed_of_storable hvalue' hvalue
    refine ⟨.declaration name type v', ?_, by simp [Expr.enclose?, henclosed]⟩
    rw [hdeclares'.statement_eq, declaration_eq, hstored]
    simp only [hnew, if_true, store_of_enclose? henclosed]
  | @again name type p value v _ hdeclares hold hvalue =>
    obtain ⟨rest, value', rfl, hvalue', hdeclares'⟩ := hdeclares.exists_value_of_enclose? ht
    obtain ⟨v', hstored, henclosed⟩ := exists_enclosed_of_storable hvalue' hvalue
    refine ⟨.declaration name type v', ?_, by simp [Expr.enclose?, henclosed]⟩
    rw [hdeclares'.statement_eq, declaration_eq, s.enter_eq_self hold, hstored]
    simp only [hold, if_false]
  | @assignment name type p value v _ hassigns htype hvalue =>
    obtain ⟨rest, value', rfl, hvalue', hassigns'⟩ := hassigns.exists_value_of_enclose? ht
    obtain ⟨v', hstored, henclosed⟩ := exists_enclosed_of_storable hvalue' hvalue
    refine ⟨.assignment name v', ?_, by simp [Expr.enclose?, henclosed]⟩
    rw [hassigns'.statement_eq, assignment_eq, htype]
    simp only [hstored, store_of_enclose? henclosed]
  | expression hvalue =>
    obtain ⟨e', hexpression, henclosed⟩ := exists_enclosed_of_expression ht hvalue
    exact ⟨e', statement_of_expression hexpression, henclosed⟩

/-- The analysis of a list of statements by way of one of them: what it comes to is put behind what
has been found up to there, whether the rest is analysed to its end or not. -/
theorem run_append_cons {before : List Tree} {earlier : List Expr} {reported : List Diagnostic}
    (hbefore : (run s before).result = .ok (earlier, reported))
    (ht : statement (run s before).state t = .next s' e diagnostics) (after : List Tree) :
    run s (before ++ t :: after)
      = (run s' after).prepend (earlier ++ [e]) (reported ++ diagnostics) := by
  have hcons : run (run s before).state (t :: after) = (run s' after).cons e diagnostics := by
    rw [run, ht]
  rw [run_append_of_ok hbefore, hcons]
  rcases run s' after with ⟨final, reason | ⟨later, others⟩⟩
  · rfl
  · simp [Run.prepend, Run.cons, Except.map]

end Analysis

/-! ## Verdicts -/

namespace Verdict

open Analysis

/-- What a verdict says is wrong, and the variables it lists. -/
def reports (v : Verdict) : List Diagnostic × Option Diagnostic × SymbolTable :=
  (v.errors, v.fatal, v.symbols)

/-- How the verdict `w` on a program is related to the verdict `v` on the program without the
parentheses at a place in the statement behind the first `index`. -/
structure Enclosed (index : Nat) (place : List Turn) (v w : Verdict) : Prop where
  fatal : w.fatal = none
  errors : w.errors = v.errors
  symbols : w.symbols = v.symbols
  accepted : v.rejected = false → w.rejected = false ∧
    ∃ earlier e e' later, earlier.length = index ∧ e.enclose? place = some e' ∧
      v.program = some ⟨earlier ++ e :: later⟩ ∧ w.program = some ⟨earlier ++ e' :: later⟩

variable {text : String} {position : Option Position} {ts ts' : List Tree}

/-- What is reported of a program does not depend on what its statements stand for. -/
theorem reports_of_run {r : Run} {es es' : List Expr} {diagnostics : List Diagnostic}
    (h : Analysis.run .initial ts = r.prepend es diagnostics)
    (h' : Analysis.run .initial ts' = r.prepend es' diagnostics) :
    (ofTree? (.node .program text position ts)).map reports
      = (ofTree? (.node .program text position ts')).map reports := by
  simp only [ofTree?, h, h']
  rcases r with ⟨final, (diagnostic | _) | ⟨later, others⟩⟩
  · rfl
  · rfl
  · simp [Run.prepend, Except.map, reports]

/-- Parentheses are neutral. If a program is analysed without a fatal reason, so is the program with
parentheses around an expression at any place in a statement of it, whatever the position of the
parentheses. Errors and variables are the same, and if the one program is accepted so is the other
and differs from it by parentheses at that place. If more statements follow, fatal or not, the two
programs still have the same errors, fatal reason and variables, or neither has a verdict. -/
theorem enclosed_in_parens {before after : List Tree} {t t' : Tree} {place : List Turn}
    {parensText : String} {parensPosition : Option Position}
    (ht : t.enclose? parensText parensPosition place = some t') {v : Verdict}
    (hv : ofTree? (.node .program text position (before ++ t :: after)) = some v)
    (hfatal : v.fatal = none) :
    (∃ w, ofTree? (.node .program text position (before ++ t' :: after)) = some w ∧
        Enclosed before.length place v w) ∧
      ∀ more, (ofTree? (.node .program text position (before ++ t' :: after ++ more))).map reports
        = (ofTree? (.node .program text position (before ++ t :: after ++ more))).map reports := by
  obtain ⟨es, errors, hrun, rfl⟩ := exists_run_of_fatal_eq_none hv hfatal
  obtain ⟨earlier, _, reported, _, hbefore, hrest, -⟩ := exists_of_run_append_eq_ok hrun
  obtain ⟨inner, e, diagnostics, later, others, hstep, hafter, -⟩ := exists_of_run_cons_eq_ok hrest
  obtain ⟨e', hstep', henclosed⟩ := exists_enclosed_of_statement ht hstep
  -- from the statement on both analyses are in the same state
  have hwith := run_append_cons hbefore hstep'
  have hwithout := run_append_cons hbefore hstep
  refine ⟨?_, fun more => ?_⟩
  · have hresult : (Analysis.run .initial (before ++ t' :: after)).result
        = .ok (earlier ++ [e'] ++ later, reported ++ diagnostics ++ others) := by
      rw [hwith after, Run.prepend, hafter]
      rfl
    rw [hwithout after, Run.prepend, hafter] at hrun
    cases hrun
    refine ⟨_, ofTree?_of_run hresult, ?_⟩
    constructor
    case fatal => simp
    case errors => simp
    case symbols => simp [hwith after, hwithout after, Run.prepend]
    case accepted =>
      intro haccepted
      have hnil := rejected_ofStatements_eq_false_iff.1 haccepted
      refine ⟨rejected_ofStatements_eq_false_iff.2 hnil, earlier, e, e', later,
        length_of_run hbefore, henclosed, ?_, ?_⟩
      · simp [ofStatements, hnil]
      · simp [ofStatements, hnil]
  · rw [List.append_assoc, List.append_assoc, List.cons_append, List.cons_append]
    exact reports_of_run (hwith (after ++ more)) (hwithout (after ++ more))

/-- Behind `int x = 1;` the statement `float y = -(-x);` becomes `float y = -(-(x));`. If
`bool z = y;` follows, both programs are rejected for the same reason. -/
theorem enclosed_in_parens_sample :
    let minus (operand : Tree) : Tree := .node (.unary .minus) "" none [operand]
    let parens (inner : Tree) : Tree := .node .parens "" none [inner]
    let declare (type name : String) (value : Tree) : Tree := .node .declaration "" none
      [.leaf .token type none, .leaf .token name none, value]
    let before := [declare "int" "x" (.leaf .number "1" none)]
    let t := declare "float" "y" (minus (parens (minus (.leaf .var "x" none))))
    let t' := declare "float" "y" (minus (parens (minus (parens (.leaf .var "x" none)))))
    let more := [declare "bool" "z" (.leaf .var "y" none)]
    let place : List Turn := [.value, .operand, .operand, .operand]
    let verdict (ts : List Tree) := ofTree? (.node .program "" none ts)
    t.enclose? "" none place = some t' ∧
      (∃ v w, verdict (before ++ t :: []) = some v ∧ v.fatal = none ∧ v.rejected = false ∧
        verdict (before ++ t' :: []) = some w ∧ Enclosed 1 place v w) ∧
        (verdict (before ++ t :: [] ++ more)).any (·.fatal.isSome) = true ∧
          (verdict (before ++ t' :: [] ++ more)).map reports
            = (verdict (before ++ t :: [] ++ more)).map reports := by
  intro minus parens declare before t t' more place verdict
  have hplace : t.enclose? "" none place = some t' := rfl
  have hverdict : (verdict (before ++ t :: [])).map (fun v => (v.fatal, v.rejected))
      = some (none, false) := by decide +kernel
  have hrejected : (verdict (before ++ t :: [] ++ more)).any (·.fatal.isSome) = true := by
    decide +kernel
  obtain ⟨v, hv, hfacts⟩ := Option.map_eq_some_iff.1 hverdict
  obtain ⟨hfatal, haccepted⟩ := Prod.mk.inj hfacts
  obtain ⟨⟨w, hw, henclosed⟩, hmore⟩ := enclosed_in_parens hplace hv hfatal
  exact ⟨hplace, ⟨v, w, hv, hfatal, haccepted, hw, henclosed⟩, hrejected, hmore more⟩

end Verdict

end ScalarLang
