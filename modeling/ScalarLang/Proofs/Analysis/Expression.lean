import Mathlib.Tactic
import ScalarLang.Analysis.Expression

/-!
# When an expression is analysed to its end

One equivalence for each kind of node: its analysis succeeds exactly if that of its operands does
and the node itself is not refused. A literal has no operands and has to be readable.
-/

namespace ScalarLang.Analysis

/-- A sequence of two analyses succeeds exactly if both do. -/
theorem bind_eq_ok_iff {α β : Type} {x : Except Halt α} {f : α → Except Halt β} {b : β} :
    x >>= f = .ok b ↔ ∃ a, x = .ok a ∧ f a = .ok b := by
  cases x with
  | error reason => exact ⟨fun h => (by cases h), fun ⟨a, h, _⟩ => (by cases h)⟩
  | ok a =>
    constructor
    · exact fun h => ⟨a, rfl, h⟩
    · rintro ⟨_, ⟨⟩, h⟩
      exact h

variable {symbols : SymbolTable} {text : String} {position : Option Position} {e : Expr}
  {diagnostics : List Diagnostic}

/-- A number is analysed if it is in range. -/
theorem expression_number_eq_ok_iff :
    expression symbols (.leaf .number text position) = .ok (e, diagnostics) ↔
      numberLiteral? text = some e ∧ diagnostics = [] := by
  rw [Tree.leaf, expression]
  cases numberLiteral? text with
  | none => simp
  | some literal => simp [eq_comm]

/-- A truth value is analysed if it is one of the two words. -/
theorem expression_boolean_eq_ok_iff :
    expression symbols (.leaf .boolean text position) = .ok (e, diagnostics) ↔
      booleanLiteral? text = some e ∧ diagnostics = [] := by
  rw [Tree.leaf, expression]
  cases booleanLiteral? text with
  | none => simp
  | some literal => simp [eq_comm]

/-- The only unary operation that is refused is a minus before a minus of a number or variable. -/
theorem unaryExpr_eq_ok_iff {op : UnaryOp} {operand : Expr} :
    unaryExpr op operand position = .ok e ↔
      e = .unary op operand ∧ ¬(op = .minus ∧ isMinusOfAtom operand = true) := by
  rw [unaryExpr]
  by_cases h : op = .minus ∧ isMinusOfAtom operand = true
  · rw [if_pos (by simp [h])]
    exact ⟨fun h => (by cases h), fun h' => absurd h h'.2⟩
  · rw [if_neg (by simpa using h)]
    exact ⟨fun h' => ⟨(Except.ok.inj h').symm, h⟩, fun h' => congrArg _ h'.1.symm⟩

/-- Parentheses are analysed if their operand is. -/
theorem expression_parens_eq_ok_iff {inner : Tree} :
    expression symbols (.node .parens text position [inner]) = .ok (e, diagnostics) ↔
      ∃ operand, expression symbols inner = .ok (operand, diagnostics) ∧ e = .parens operand := by
  rw [expression, bind_eq_ok_iff]
  constructor
  · rintro ⟨⟨operand, _⟩, hinner, ⟨⟩⟩
    exact ⟨operand, hinner, rfl⟩
  · rintro ⟨operand, hinner, rfl⟩
    exact ⟨(operand, diagnostics), hinner, rfl⟩

/-- A unary operation is analysed if its operand is and takes the operator. -/
theorem expression_unary_eq_ok_iff {op : UnaryOp} {inner : Tree} :
    expression symbols (.node (.unary op) text position [inner]) = .ok (e, diagnostics) ↔
      ∃ operand, expression symbols inner = .ok (operand, diagnostics) ∧
        e = .unary op operand ∧ ¬(op = .minus ∧ isMinusOfAtom operand = true) := by
  rw [expression, bind_eq_ok_iff]
  constructor
  · rintro ⟨⟨operand, _⟩, hinner, h⟩
    obtain ⟨_, hunary, ⟨⟩⟩ := bind_eq_ok_iff.1 h
    exact ⟨operand, hinner, unaryExpr_eq_ok_iff.1 hunary⟩
  · rintro ⟨operand, hinner, h⟩
    exact ⟨(operand, diagnostics), hinner,
      bind_eq_ok_iff.2 ⟨e, unaryExpr_eq_ok_iff.2 h, rfl⟩⟩

/-- A binary operation is analysed if both operands are and its operator is one of its class. -/
theorem expression_binary_eq_ok_iff {cls : BinaryClass} {left op right : Tree} :
    expression symbols (.node (.binary cls) text position [left, op, right])
        = .ok (e, diagnostics) ↔
      ∃ l r leftDiagnostics rightDiagnostics operator,
        expression symbols left = .ok (l, leftDiagnostics) ∧
          expression symbols right = .ok (r, rightDiagnostics) ∧
            binaryOp cls op = .ok operator ∧ e = .binary operator l r ∧
              diagnostics = leftDiagnostics ++ rightDiagnostics := by
  rw [expression, bind_eq_ok_iff]
  constructor
  · rintro ⟨⟨l, leftDiagnostics⟩, hleft, h⟩
    obtain ⟨⟨r, rightDiagnostics⟩, hright, h⟩ := bind_eq_ok_iff.1 h
    obtain ⟨operator, hop, ⟨⟩⟩ := bind_eq_ok_iff.1 h
    exact ⟨l, r, leftDiagnostics, rightDiagnostics, operator, hleft, hright, hop, rfl, rfl⟩
  · rintro ⟨l, r, leftDiagnostics, rightDiagnostics, operator, hleft, hright, hop, rfl, rfl⟩
    exact ⟨(l, leftDiagnostics), hleft, bind_eq_ok_iff.2 ⟨(r, rightDiagnostics), hright,
      bind_eq_ok_iff.2 ⟨operator, hop, rfl⟩⟩⟩

end ScalarLang.Analysis
