import Mathlib.Logic.Function.Basic
import ScalarLang.Proofs.Analysis.Transition

/-!
# Execution of programs

What programs do when they run. A statement is executed on a memory that holds the variables which
have been given a value. Only so much is said of values as holds under every meaning of the
operators: a literal is the value it denotes, a variable is what has been stored in it, and a minus
turns the sign of a number. Whatever else is computed can be any value.

* `Evaluates m t v`: the expression `t` can have the value `v`.
* `Executes m t m'`: the statement `t` can lead from the memory `m` to `m'`.
* `Execution m ts m'`: the statements `ts` can, one after the other.

An expression that is analysed to its end has a value on every memory (`exists_evaluates`).
-/

namespace ScalarLang

/-- A value that is computed. A number knows whether it is an integer or a fraction. -/
inductive Value
  | number (value : Binary64) (isInteger : Bool)
  | boolean (value : Bool)
  deriving DecidableEq, Repr, Inhabited

/-- The value that a text denotes: a number, which is a fraction if there is a point in the text, or
one of the two words. -/
def Value.ofText? (text : String) : Option Value :=
  match Numeral.value? text with
  | some value => some (.number value (!text.toList.contains '.'))
  | none =>
    if text = "true" then some (.boolean true)
    else if text = "false" then some (.boolean false)
    else none

/-- A variable that has been given a value. -/
structure Variable where
  type : ScalarType
  value : Value
  deriving DecidableEq, Repr, Inhabited

/-- The variables that have been given a value, by their names. -/
abbrev Memory := String → Option Variable

namespace Memory

/-- No variable has been given a value. -/
def empty : Memory := fun _ => none

/-- The memory after a variable has been given a value. -/
def set (m : Memory) (name : String) (x : Variable) : Memory :=
  Function.update m name (some x)

/-- Reading a variable can give a value: the one that has been stored, or any before that. -/
def Reads (m : Memory) (name : String) (v : Value) : Prop :=
  ∀ x, m name = some x → x.value = v

theorem set_self (m : Memory) (name : String) (x : Variable) : m.set name x name = some x :=
  Function.update_self ..

theorem set_of_ne (m : Memory) {name other : String} (h : other ≠ name) (x : Variable) :
    m.set name x other = m other :=
  Function.update_of_ne h ..

/-- Reading a variable gives something. -/
theorem exists_reads (m : Memory) (name : String) : ∃ v, m.Reads name v := by
  cases hname : m name with
  | none => exact ⟨.boolean false, fun x hx => by simp [hname] at hx⟩
  | some x => exact ⟨x.value, fun y hy => by rw [Option.some.inj (hname.symm.trans hy)]⟩

/-- What has been stored is read. -/
theorem reads_set_self (m : Memory) (name : String) (x : Variable) :
    (m.set name x).Reads name x.value := by
  intro y hy
  rw [m.set_self] at hy
  rw [Option.some.inj hy]

end Memory

/-! ## The rules of execution -/

/-- The values that an expression can have. -/
inductive Evaluates (m : Memory) : Tree → Value → Prop
  | number {text : String} {position : Option Position} {children : List Tree} {value : Binary64}
      (h : Numeral.value? text = some value) :
      Evaluates m (.node .number text position children)
        (.number value (!text.toList.contains '.'))
  | boolean (value : Bool) {position : Option Position} {children : List Tree} :
      Evaluates m (.node .boolean (Expr.booleanText value) position children) (.boolean value)
  | var {name : String} {position : Option Position} {children : List Tree} {v : Value}
      (h : m.Reads name v) : Evaluates m (.node .var name position children) v
  | parens {text : String} {position : Option Position} {inner : Tree} {v : Value}
      (h : Evaluates m inner v) : Evaluates m (.node .parens text position [inner]) v
  | minus {text : String} {position : Option Position} {operand : Tree} {value : Binary64}
      {isInteger : Bool} (h : Evaluates m operand (.number value isInteger)) :
      Evaluates m (.node (.unary .minus) text position [operand]) (.number value.neg isInteger)
  /-- The minus of a truth value can be anything. -/
  | minusOfBoolean {text : String} {position : Option Position} {operand : Tree} {value : Bool}
      (h : Evaluates m operand (.boolean value)) (v : Value) :
      Evaluates m (.node (.unary .minus) text position [operand]) v
  /-- A negation can be anything. -/
  | not {text : String} {position : Option Position} {operand : Tree} (v : Value) :
      Evaluates m (.node (.unary .not) text position [operand]) v
  /-- A binary operation can be anything. -/
  | binary {cls : BinaryClass} {text : String} {position : Option Position}
      {left op right : Tree} (v : Value) :
      Evaluates m (.node (.binary cls) text position [left, op, right]) v

/-- What a value can become in a variable of a given type. -/
inductive Converts : ScalarType → Value → Value → Prop
  /-- A variable of type `float` holds a number as a fraction. -/
  | number (value : Binary64) (isInteger : Bool) :
      Converts .float (.number value isInteger) (.number value false)
  /-- A truth value in it can become anything. -/
  | boolean (value : Bool) (v : Value) : Converts .float (.boolean value) v
  | same {type : ScalarType} (h : type ≠ .float) (v : Value) : Converts type v v

open Analysis in
/-- The memories to which a statement can lead. -/
inductive Executes (m : Memory) (t : Tree) : Memory → Prop
  /-- The first declaration of a name, whose value may read the variable before it has one. -/
  | first {name : String} {type : ScalarType} {position : Option Position} {value : Tree}
      {v w : Value} (h : Declares t name type position value) (hname : m name = none)
      (hvalue : Evaluates m value v) (hstored : Converts type v w) :
      Executes m t (m.set name ⟨type, w⟩)
  /-- Another declaration of the name stores nothing. -/
  | again {name : String} {type : ScalarType} {position : Option Position} {value : Tree}
      {x : Variable} {v : Value} (h : Declares t name type position value)
      (hname : m name = some x) (hvalue : Evaluates m value v) : Executes m t m
  | assignment {name : String} {position : Option Position} {value : Tree} {x : Variable}
      {v w : Value} (h : Assigns t name position value) (hname : m name = some x)
      (hvalue : Evaluates m value v) (hstored : Converts x.type v w) :
      Executes m t (m.set name ⟨x.type, w⟩)
  | expression {v : Value} (h : Evaluates m t v) : Executes m t m

/-- The memories to which statements can lead, one after the other. -/
inductive Execution : Memory → List Tree → Memory → Prop
  | nil (m : Memory) : Execution m [] m
  | cons {m m' m'' : Memory} {t : Tree} {ts : List Tree} (h : Executes m t m')
      (hrest : Execution m' ts m'') : Execution m (t :: ts) m''

namespace Analysis

variable {m m' : Memory} {t value : Tree} {name : String} {type : ScalarType}
  {position : Option Position}

/-! ## Statements by their shapes -/

/-- A tree declares one variable. -/
theorem Declares.unique {name' : String} {type' : ScalarType} {position' : Option Position}
    {value' : Tree} (h : Declares t name type position value)
    (h' : Declares t name' type' position' value') :
    name' = name ∧ type' = type ∧ value' = value := by
  rcases h with ⟨_, htype⟩
  rcases h' with ⟨_, htype'⟩
  exact ⟨rfl, Option.some.inj (htype'.symm.trans htype), rfl⟩

/-- How a declaration is executed. -/
theorem executes_of_declares (h : Declares t name type position value) (hexec : Executes m t m') :
    ∃ v, Evaluates m value v ∧
      ((m name = none ∧ ∃ w, Converts type v w ∧ m' = m.set name ⟨type, w⟩) ∨
        (m name ≠ none ∧ m' = m)) := by
  cases hexec with
  | first hdeclares hname hvalue hstored =>
    obtain ⟨rfl, rfl, rfl⟩ := h.unique hdeclares
    exact ⟨_, hvalue, .inl ⟨hname, _, hstored, rfl⟩⟩
  | again hdeclares hname hvalue =>
    obtain ⟨rfl, rfl, rfl⟩ := h.unique hdeclares
    exact ⟨_, hvalue, .inr ⟨by simp [hname], rfl⟩⟩
  | assignment hassigns => cases h; cases hassigns
  | expression hvalue => cases h; cases hvalue

/-- How an assignment is executed. -/
theorem executes_of_assigns (h : Assigns t name position value) (hexec : Executes m t m') :
    ∃ x v w, m name = some x ∧ Evaluates m value v ∧ Converts x.type v w ∧
      m' = m.set name ⟨x.type, w⟩ := by
  cases hexec with
  | assignment hassigns hname hvalue hstored =>
    cases h
    cases hassigns
    exact ⟨_, _, _, hname, hvalue, hstored, rfl⟩
  | first hdeclares | again hdeclares => cases h; cases hdeclares
  | expression hvalue => cases h; cases hvalue

/-- An expression leaves the memory as it was. -/
theorem executes_of_expression {symbols : SymbolTable} {e : Expr} {diagnostics : List Diagnostic}
    (h : expression symbols t = .ok (e, diagnostics)) (hexec : Executes m t m') : m' = m := by
  cases hexec with
  | again | expression => rfl
  | first hdeclares => cases hdeclares; simp [expression] at h
  | assignment hassigns => cases hassigns; simp [expression] at h

/-! ## Execution goes on -/

/-- An expression that is analysed to its end has a value. -/
theorem exists_evaluates {symbols : SymbolTable} {e : Expr} {diagnostics : List Diagnostic}
    (m : Memory) (h : expression symbols t = .ok (e, diagnostics)) : ∃ v, Evaluates m t v := by
  fun_induction expression symbols t generalizing e diagnostics with
  | case1 | case3 | case5 | case10 | case11 | case12 | case13 => cases h
  | case2 text position children e' hliteral =>
    obtain ⟨value, hvalue, -⟩ := Option.map_eq_some_iff.1 hliteral
    exact ⟨_, .number hvalue⟩
  | case4 text position children e' hliteral =>
    unfold booleanLiteral? at hliteral
    split_ifs at hliteral with htrue hfalse
    · subst htrue
      exact ⟨_, .boolean true⟩
    · subst hfalse
      exact ⟨_, .boolean false⟩
  | case6 name position children =>
    obtain ⟨v, hreads⟩ := m.exists_reads name
    exact ⟨v, .var hreads⟩
  | case7 text position inner ih =>
    obtain ⟨⟨_, _⟩, hinner, -⟩ := bind_eq_ok_iff.1 h
    obtain ⟨v, hv⟩ := ih hinner
    exact ⟨v, .parens hv⟩
  | case8 op text position operand ih =>
    obtain ⟨⟨_, _⟩, hoperand, -⟩ := bind_eq_ok_iff.1 h
    cases op with
    | not => exact ⟨default, .not _⟩
    | minus =>
      obtain ⟨v, hv⟩ := ih hoperand
      cases v with
      | number value isInteger => exact ⟨_, .minus hv⟩
      | boolean value => exact ⟨default, .minusOfBoolean hv _⟩
  | case9 => exact ⟨default, .binary _⟩

/-- A variable can hold something of every value. -/
theorem exists_converts (type : ScalarType) (v : Value) : ∃ w, Converts type v w := by
  by_cases htype : type = .float
  · subst htype
    cases v with
    | number value isInteger => exact ⟨_, .number value isInteger⟩
    | boolean value => exact ⟨default, .boolean value _⟩
  · exact ⟨v, .same htype v⟩

end Analysis

end ScalarLang
