import Mathlib.Data.Set.Basic
import ScalarLang.Proofs.Analysis.Execution
import ScalarLang.Proofs.Number.Signed

/-!
# Constant propagation

What analysis knows of the variables is compared with what they hold when the program runs. A state
describes a set of memories (`Describes`): every literal that the state knows is the value that the
variable has in all of them, and a variable of which the state knows no literal can have any value
in one of them. Statements keep this, from the states before and behind them to the memories to
which they can lead.

* `Denotes l v`: the literal `l` is the value `v`.
* `denotes_of_evaluates`: what is known of an expression is the value it has.
* `exists_evaluates_of_unknown`: an expression of which nothing is known can have any value.
* `Describes.next`, `Describes.run`: what one statement and a list of statements keep.
-/

namespace ScalarLang

/-- All numbers in a tree are spelled as numerals. -/
inductive Tree.NumeralsOnly : Tree → Prop
  | missing : NumeralsOnly .missing
  | node {kind : NodeKind} {text : String} {position : Option Position} {children : List Tree}
      (hnumber : kind = .number → Numeral.IsNumeral text.toList)
      (hchildren : ∀ t ∈ children, NumeralsOnly t) :
      NumeralsOnly (.node kind text position children)

/-- The numbers below a node are among those of the node. -/
theorem Tree.NumeralsOnly.child {kind : NodeKind} {text : String} {position : Option Position}
    {children : List Tree} {t : Tree} (h : NumeralsOnly (.node kind text position children))
    (ht : t ∈ children) : t.NumeralsOnly := by
  cases h with
  | node _ hchildren => exact hchildren t ht

namespace Analysis

/-! ## Literals and values -/

/-- The literal is the value. -/
inductive Denotes : Literal → Value → Prop
  | int {text : String} {value : Binary64} (h : Writes text value true) :
      Denotes ⟨.int, text⟩ (.number value true)
  | float {text : String} {value : Binary64} (h : Writes text value false) :
      Denotes ⟨.float, text⟩ (.number value false)
  | boolean (value : Bool) : Denotes ⟨.bool, Expr.booleanText value⟩ (.boolean value)

namespace Denotes

variable {l : Literal} {v w : Value} {type : ScalarType}

/-- The value is read back from the text of the literal. -/
theorem ofText? (h : Denotes l v) : Value.ofText? l.text = some v := by
  cases h with
  | int hwrites | float hwrites =>
    have hpoint := hwrites.point_mem_iff
    simp only [Value.ofText?, hwrites.value?]
    simpa using hpoint
  | boolean value => cases value <;> decide

/-- There is a point in the text exactly if the type is `float`. -/
theorem point_mem_iff (h : Denotes l v) : '.' ∈ l.text.toList ↔ l.type = .float := by
  cases h with
  | int hwrites | float hwrites => simp [hwrites.point_mem_iff]
  | boolean value => cases value <;> decide

/-- What is known after a value has been stored is what the variable holds. -/
theorem stored {l' : Literal} (h : Denotes l v) (haccepts : type.accepts l.type = true)
    (hstored : stored type (some (.literal l)) = some l') (hconverts : Converts type v w) :
    l'.type = type ∧ Denotes l' w := by
  cases h with
  | int hwrites =>
    obtain rfl | rfl : type = .int ∨ type = .float := by simpa [ScalarType.accepts] using haccepts
    · cases hstored
      cases hconverts
      exact ⟨rfl, .int hwrites⟩
    · cases hstored
      cases hconverts with
      | number => exact ⟨rfl, .float hwrites.append_zero⟩
      | same hne => exact absurd rfl hne
  | float hwrites =>
    obtain rfl : type = .float := by simpa [ScalarType.accepts] using haccepts
    cases hstored
    cases hconverts with
    | number => exact ⟨rfl, .float hwrites⟩
    | same hne => exact absurd rfl hne
  | boolean value =>
    obtain rfl | rfl : type = .bool ∨ type = .float := by simpa [ScalarType.accepts] using haccepts
    · cases hstored
      cases hconverts
      exact ⟨rfl, .boolean value⟩
    · cases hstored

end Denotes

/-! ## What is known of expressions -/

/-- Every literal that is known is what the variable holds. -/
def Holds (bindings : Bindings) (m : Memory) : Prop :=
  ∀ name l, bindings name = some l → ∃ v, m name = some ⟨l.type, v⟩ ∧ Denotes l v

section Expressions

variable {symbols : SymbolTable} {bindings : Bindings} {m : Memory} {t : Tree} {e : Expr}
  {diagnostics : List Diagnostic} {l : Literal} {v : Value}

/-- When the value of a variable is known. -/
theorem resolve_var_eq_literal_iff {name : String} :
    resolve symbols bindings (.var name) = some (.literal l) ↔ bindings name = some l := by
  rw [resolve, resolveVar]
  cases bindings name with
  | none => simp
  | some value => simp

/-- When the minus of an expression is known. -/
theorem resolve_minus_eq_literal_iff :
    resolve symbols bindings (.unary .minus e) = some (.literal l) ↔
      ∃ value, resolve symbols bindings e = some (.literal value) ∧ value.type ≠ .bool ∧
        l = { value with text := negate value.text } := by
  rw [resolve]
  split
  next value hvalue =>
    by_cases hbool : value.type = .bool
    · simp [hvalue, hbool]
    · rw [if_neg hbool]
      constructor
      · rintro ⟨⟩
        exact ⟨value, hvalue, hbool, rfl⟩
      · rintro ⟨known, hknown, -, rfl⟩
        cases hvalue.symm.trans hknown
        rfl
  next hunknown =>
    constructor
    · rintro ⟨⟩
    · rintro ⟨value, hvalue, -⟩
      exact absurd hvalue (hunknown value)

/-- What is known of an expression is the value that it has. -/
theorem denotes_of_evaluates (hholds : Holds bindings m) (hevaluates : Evaluates m t v)
    (hnumerals : t.NumeralsOnly) (h : expression symbols t = .ok (e, diagnostics))
    (hresolve : resolve symbols bindings e = some (.literal l)) : Denotes l v := by
  -- along the evaluation, which fixes the shape of the tree and with it what analysis knows
  induction hevaluates generalizing e diagnostics l with
  | @number text position children value hvalue =>
    cases hnumerals with
    | node hnumeral _ =>
      have hliteral := isLiteral_of_value? (hnumeral rfl) hvalue
      rw [expression, numberLiteral?, hvalue] at h
      cases h
      cases hresolve
      cases hinteger : !text.toList.contains '.' with
      | true =>
        rw [hinteger] at hliteral
        exact .int (writes_numberText hliteral)
      | false =>
        rw [hinteger] at hliteral
        exact .float (writes_numberText hliteral)
  | boolean value =>
    cases value with
    | true =>
      cases h
      cases hresolve
      exact .boolean true
    | false =>
      cases h
      cases hresolve
      exact .boolean false
  | var hreads =>
    cases h
    obtain ⟨value, hname, hdenotes⟩ := hholds _ _ (resolve_var_eq_literal_iff.1 hresolve)
    obtain rfl := hreads _ hname
    exact hdenotes
  | parens _ ih =>
    obtain ⟨operand, hoperand, rfl⟩ := expression_parens_eq_ok_iff.1 h
    exact ih (hnumerals.child List.mem_cons_self) hoperand hresolve
  | minus _ ih =>
    obtain ⟨operand, hoperand, rfl, -⟩ := expression_unary_eq_ok_iff.1 h
    obtain ⟨value, hvalue, -, rfl⟩ := resolve_minus_eq_literal_iff.1 hresolve
    -- the sign of the text is turned like that of the number
    cases ih (hnumerals.child List.mem_cons_self) hoperand hvalue with
    | int hwrites => exact .int hwrites.negate
    | float hwrites => exact .float hwrites.negate
  | minusOfBoolean _ _ ih =>
    obtain ⟨operand, hoperand, rfl, -⟩ := expression_unary_eq_ok_iff.1 h
    obtain ⟨value, hvalue, hbool, rfl⟩ := resolve_minus_eq_literal_iff.1 hresolve
    cases ih (hnumerals.child List.mem_cons_self) hoperand hvalue
    exact absurd rfl hbool
  | not =>
    obtain ⟨operand, -, rfl, -⟩ := expression_unary_eq_ok_iff.1 h
    cases hresolve
  | binary =>
    obtain ⟨_, _, _, _, _, -, -, -, rfl, -⟩ := expression_binary_eq_ok_iff.1 h
    cases hresolve

end Expressions

/-! ## What is known of memories -/

/-- A state agrees with a memory: the variables are those that are declared, and what is known of
them is what they hold. -/
structure Agrees (s : State) (m : Memory) : Prop where
  declared : ∀ name, (m name).map Variable.type = s.symbols.typeOf? name
  holds : Holds s.bindings m

/-- A state describes a set of memories: it agrees with all of them, and a variable of which it
knows no literal can have any value. -/
structure Describes (s : State) (M : Set Memory) : Prop where
  nonempty : M.Nonempty
  agrees : ∀ m ∈ M, Agrees s m
  free : ∀ name, s.bindings name = none → ∀ v, ∃ m ∈ M, m.Reads name v

section Unknown

variable {s : State} {M : Set Memory} {symbols : SymbolTable} {t : Tree} {e : Expr}
  {diagnostics : List Diagnostic}

/-- An expression that is known to be a truth value has one. -/
theorem Describes.exists_evaluates_boolean (hM : Describes s M) (hnumerals : t.NumeralsOnly)
    (h : expression symbols t = .ok (e, diagnostics)) {l : Literal}
    (hl : resolve symbols s.bindings e = some (.literal l)) (hbool : l.type = .bool) :
    ∃ m ∈ M, ∃ b, Evaluates m t (.boolean b) := by
  obtain ⟨m, hm⟩ := hM.nonempty
  obtain ⟨v, hv⟩ := exists_evaluates m h
  cases denotes_of_evaluates (hM.agrees m hm).holds hv hnumerals h hl with
  | int | float => cases hbool
  | boolean b => exact ⟨m, hm, b, hv⟩

/-- An expression of which no literal is known can have any value. -/
theorem exists_evaluates_of_unknown (hM : Describes s M) (hnumerals : t.NumeralsOnly)
    (h : expression symbols t = .ok (e, diagnostics))
    (hunknown : ∀ l, resolve symbols s.bindings e ≠ some (.literal l)) (v : Value) :
    ∃ m ∈ M, Evaluates m t v := by
  -- for all values at once: below a minus it takes a truth value to get any other
  fun_induction expression symbols t generalizing e diagnostics v with
  | case1 | case3 | case5 | case10 | case11 | case12 | case13 => cases h
  | case2 text position children e' hliteral =>
    obtain ⟨value, -, rfl⟩ := Option.map_eq_some_iff.1 hliteral
    cases h
    exact absurd rfl (hunknown _)
  | case4 text position children e' hliteral =>
    unfold booleanLiteral? at hliteral
    split_ifs at hliteral <;> cases hliteral <;> cases h <;> exact absurd rfl (hunknown _)
  | case6 name position children =>
    cases h
    have hname : s.bindings name = none := by
      refine Option.eq_none_iff_forall_ne_some.2 fun l hl => ?_
      exact hunknown l (resolve_var_eq_literal_iff.2 hl)
    obtain ⟨m, hm, hreads⟩ := hM.free name hname v
    exact ⟨m, hm, .var hreads⟩
  | case7 text position inner ih =>
    obtain ⟨⟨operand, _⟩, hoperand, ⟨⟩⟩ := bind_eq_ok_iff.1 h
    obtain ⟨m, hm, hv⟩ := ih (hnumerals.child List.mem_cons_self) hoperand hunknown v
    exact ⟨m, hm, .parens hv⟩
  | case8 op text position operand ih =>
    obtain ⟨⟨e', _⟩, hoperand, h⟩ := bind_eq_ok_iff.1 h
    obtain ⟨_, hunary, ⟨⟩⟩ := bind_eq_ok_iff.1 h
    obtain ⟨rfl, -⟩ := unaryExpr_eq_ok_iff.1 hunary
    have hchild : operand.NumeralsOnly := hnumerals.child List.mem_cons_self
    cases op with
    | not =>
      obtain ⟨m, hm⟩ := hM.nonempty
      exact ⟨m, hm, .not v⟩
    | minus =>
      by_cases hknown : ∃ l, resolve symbols s.bindings e' = some (.literal l)
      · -- a literal without a known minus is a truth value
        obtain ⟨l, hl⟩ := hknown
        have hbool : l.type = .bool := by
          by_contra hne
          exact hunknown _ (resolve_minus_eq_literal_iff.2 ⟨l, hl, hne, rfl⟩)
        obtain ⟨m, hm, b, hb⟩ := hM.exists_evaluates_boolean hchild hoperand hl hbool
        exact ⟨m, hm, .minusOfBoolean hb v⟩
      · obtain ⟨m, hm, hu⟩ := ih hchild hoperand (fun l hl => hknown ⟨l, hl⟩) (.boolean true)
        exact ⟨m, hm, .minusOfBoolean hu v⟩
  | case9 =>
    obtain ⟨m, hm⟩ := hM.nonempty
    exact ⟨m, hm, .binary v⟩

end Unknown

/-! ## What is stored -/

section Storing

variable {s inner : State} {M : Set Memory} {m : Memory} {name : String} {type : ScalarType}
  {position : Option Position} {value : Tree} {e : Expr} {diagnostics : List Diagnostic}

/-- A variable of the type can hold what is known of a value that is stored. -/
theorem accepts_of_incompatible? {l : Literal} (h : incompatible? s type e position = none)
    (hl : resolve s.symbols s.bindings e = some (.literal l)) : type.accepts l.type = true := by
  rw [incompatible?, hl] at h
  by_contra hrefused
  simp [Operand.type, hrefused] at h

/-- Of a literal nothing is known any more once it is stored exactly if it is a truth value in a
variable of another type. -/
theorem stored_literal_eq_none_iff {l : Literal} :
    stored type (some (.literal l)) = none ↔ l.type = .bool ∧ type ≠ .bool := by
  simp only [stored]
  split_ifs with hlost <;> simpa using hlost

/-- What is known behind a store is what the variable then holds. -/
theorem denotes_store {l : Literal} {v w : Value} (hholds : Holds s.bindings m)
    (hnumerals : value.NumeralsOnly)
    (h : storable s type position value = .ok (e, diagnostics)) (hvalue : Evaluates m value v)
    (hconverts : Converts type v w)
    (hstored : stored type (resolve s.symbols s.bindings e) = some l) :
    l.type = type ∧ Denotes l w := by
  obtain ⟨hexpression, haccepted⟩ := storable_eq_ok_iff.1 h
  cases hresolve : resolve s.symbols s.bindings e with
  | none => rw [hresolve] at hstored; cases hstored
  | some operand =>
    cases operand with
    | held => rw [hresolve] at hstored; cases hstored
    | literal known =>
      rw [hresolve] at hstored
      have hdenotes := denotes_of_evaluates hholds hvalue hnumerals hexpression hresolve
      exact hdenotes.stored (accepts_of_incompatible? haccepted hresolve) hstored hconverts

/-- Where nothing is known behind a store, the variable can hold any value. -/
theorem exists_converts_of_unknown (hM : Describes s M)
    (h : storable inner type position value = .ok (e, diagnostics))
    (hbindings : inner.bindings = s.bindings) (hnumerals : value.NumeralsOnly)
    (hunknown : stored type (resolve inner.symbols inner.bindings e) = none) (w : Value) :
    ∃ m ∈ M, ∃ v, Evaluates m value v ∧ Converts type v w := by
  obtain ⟨hexpression, haccepted⟩ := storable_eq_ok_iff.1 h
  rw [hbindings] at hunknown
  by_cases hknown : ∃ l, resolve inner.symbols s.bindings e = some (.literal l)
  · -- a known value is lost only as a truth value in a variable of another type
    obtain ⟨l, hl⟩ := hknown
    have haccepts := accepts_of_incompatible? haccepted (by rw [hbindings]; exact hl)
    rw [hl] at hunknown
    obtain ⟨hbool, hne⟩ := stored_literal_eq_none_iff.1 hunknown
    obtain ⟨m, hm, b, hb⟩ := hM.exists_evaluates_boolean hnumerals hexpression hl hbool
    obtain rfl : type = .float := by simpa [ScalarType.accepts, hbool, hne] using haccepts
    exact ⟨m, hm, _, hb, .boolean b w⟩
  · have hany := exists_evaluates_of_unknown hM hnumerals hexpression (fun l hl => hknown ⟨l, hl⟩)
    by_cases hfloat : type = .float
    · -- as a truth value it can become anything in the variable
      obtain ⟨m, hm, hv⟩ := hany (.boolean true)
      exact ⟨m, hm, _, hv, hfloat ▸ .boolean true w⟩
    · obtain ⟨m, hm, hv⟩ := hany w
      exact ⟨m, hm, w, hv, .same hfloat w⟩

/-- What is known of the other variables is still what they hold. -/
theorem Holds.set {bindings : Bindings} (h : Holds bindings m) {known : Option Literal} {v : Value}
    (hknown : ∀ l, known = some l → l.type = type ∧ Denotes l v) :
    Holds (bindings.set name known) (m.set name ⟨type, v⟩) := by
  intro other l hl
  rw [Bindings.set] at hl
  split_ifs at hl with hother
  · subst hother
    obtain ⟨rfl, hdenotes⟩ := hknown l hl
    exact ⟨v, m.set_self .., hdenotes⟩
  · rw [m.set_of_ne hother]
    exact h other l hl

end Storing

/-! ## Statements -/

section Statements

variable {s s' : State} {M : Set Memory} {m m' : Memory} {t value : Tree} {name : String}
  {type : ScalarType} {position : Option Position} {e : Expr} {diagnostics : List Diagnostic}

/-- The value of a declaration has the numbers of the declaration. -/
theorem Declares.numeralsOnly (h : Declares t name type position value) (ht : t.NumeralsOnly) :
    value.NumeralsOnly := by
  cases h
  exact ht.child (by simp)

/-- The value of an assignment has the numbers of the assignment. -/
theorem Assigns.numeralsOnly (h : Assigns t name position value) (ht : t.NumeralsOnly) :
    value.NumeralsOnly := by
  cases h
  exact ht.child (by simp)

/-- The variables that have a value are those that are declared. -/
theorem Agrees.eq_none_iff (h : Agrees s m) : m name = none ↔ s.symbols.find? name = none := by
  have hdeclared := h.declared name
  rw [SymbolTable.typeOf?] at hdeclared
  rw [← Option.map_eq_none_iff, hdeclared, Option.map_eq_none_iff]

/-- A variable that is declared has a value. -/
theorem Agrees.exists_value (h : Agrees s m) (htype : s.symbols.typeOf? name = some type) :
    ∃ v, m name = some ⟨type, v⟩ := by
  rw [← h.declared] at htype
  obtain ⟨x, hx, rfl⟩ := Option.map_eq_some_iff.1 htype
  exact ⟨x.value, hx⟩

/-- A statement that is analysed to its end can be executed. -/
theorem Agrees.exists_executes (h : Agrees s m) (ht : statement s t = .next s' e diagnostics) :
    ∃ m', Executes m t m' := by
  cases advance_of_statement ht with
  | @first _ type _ _ _ _ hdeclares hnew hstorable =>
    obtain ⟨v, hv⟩ := exists_evaluates m (storable_eq_ok_iff.1 hstorable).1
    obtain ⟨w, hw⟩ := exists_converts type v
    exact ⟨_, .first hdeclares (h.eq_none_iff.2 hnew) hv hw⟩
  | again hdeclares hold hstorable =>
    obtain ⟨v, hv⟩ := exists_evaluates m (storable_eq_ok_iff.1 hstorable).1
    obtain ⟨x, hx⟩ := Option.ne_none_iff_exists'.1 (mt h.eq_none_iff.1 hold)
    exact ⟨_, .again hdeclares hx hv⟩
  | @assignment _ type _ _ _ _ hassigns htype hstorable =>
    obtain ⟨v, hv⟩ := exists_evaluates m (storable_eq_ok_iff.1 hstorable).1
    obtain ⟨w, hw⟩ := exists_converts type v
    obtain ⟨_, hx⟩ := h.exists_value htype
    exact ⟨_, .assignment hassigns hx hv hw⟩
  | expression hexpression =>
    obtain ⟨v, hv⟩ := exists_evaluates m hexpression
    exact ⟨_, .expression hv⟩

/-- Agreement is kept from the state and memory before a statement to those behind it. -/
theorem Agrees.next (h : Agrees s m) (hnumerals : t.NumeralsOnly)
    (ht : statement s t = .next s' e diagnostics) (hexec : Executes m t m') : Agrees s' m' := by
  cases advance_of_statement ht with
  | @first name type position value v _ hdeclares hnew hstorable =>
    obtain ⟨u, hu, ⟨-, w, hw, rfl⟩ | ⟨hname, -⟩⟩ := executes_of_declares hdeclares hexec
    -- the value was analysed with the name declared, and what is known is the same there
    · refine ⟨fun other => ?_, h.holds.set fun l hl => ?_⟩
      · rw [State.store, typeOf?_enter hnew]
        split_ifs with hother
        · rw [hother, m.set_self, Option.map_some]
        · rw [m.set_of_ne hother, h.declared]
      · exact denotes_store (s := s.enter name type position) h.holds
          (hdeclares.numeralsOnly hnumerals) hstorable hu hw hl
    · exact absurd (h.eq_none_iff.2 hnew) hname
  | again hdeclares hold _ =>
    obtain ⟨_, _, ⟨hname, -⟩ | ⟨-, rfl⟩⟩ := executes_of_declares hdeclares hexec
    · exact absurd (h.eq_none_iff.1 hname) hold
    · exact h
  | @assignment name type position value v _ hassigns htype hstorable =>
    obtain ⟨x, u, w, hx, hu, hw, rfl⟩ := executes_of_assigns hassigns hexec
    obtain rfl : x.type = type := by
      rw [← h.declared, hx] at htype
      exact Option.some.inj htype
    refine ⟨fun other => ?_, h.holds.set fun l hl => ?_⟩
    · by_cases hother : other = name
      · rw [hother, m.set_self, Option.map_some]
        exact htype.symm
      · rw [m.set_of_ne hother]
        exact h.declared other
    · exact denotes_store h.holds (hassigns.numeralsOnly hnumerals) hstorable hu hw hl
  | expression hexpression =>
    obtain rfl := executes_of_expression hexpression hexec
    exact h

/-- Behind a statement, a variable of which no literal is known can have any value. -/
theorem Describes.exists_reads (hM : Describes s M) (hnumerals : t.NumeralsOnly)
    (ht : statement s t = .next s' e diagnostics) {other : String}
    (hunknown : s'.bindings other = none) (v : Value) :
    ∃ m ∈ M, ∃ m', Executes m t m' ∧ m'.Reads other v := by
  -- a variable in which the statement does not store has the value before it
  have hkept (hunknown : s.bindings other = none)
      (hframe : ∀ m ∈ M, ∀ m', Executes m t m' → m' other = m other) :
      ∃ m ∈ M, ∃ m', Executes m t m' ∧ m'.Reads other v := by
    obtain ⟨m, hm, hreads⟩ := hM.free other hunknown v
    obtain ⟨m', hexec⟩ := (hM.agrees m hm).exists_executes ht
    refine ⟨m, hm, m', hexec, ?_⟩
    rwa [Memory.Reads, hframe m hm m' hexec]
  cases advance_of_statement ht with
  | @first name type position value e' _ hdeclares hnew hstorable =>
    simp only [State.store, Bindings.set] at hunknown
    split_ifs at hunknown with hother
    · subst hother
      obtain ⟨m, hm, u, hu, hw⟩ := exists_converts_of_unknown hM hstorable rfl
        (hdeclares.numeralsOnly hnumerals) hunknown v
      have hname := (hM.agrees m hm).eq_none_iff.2 hnew
      exact ⟨m, hm, _, .first hdeclares hname hu hw, m.reads_set_self other ⟨type, v⟩⟩
    · refine hkept hunknown fun m _ m' hexec => ?_
      obtain ⟨_, _, ⟨-, w, -, rfl⟩ | ⟨-, rfl⟩⟩ := executes_of_declares hdeclares hexec
      · exact m.set_of_ne hother _
      · rfl
  | again hdeclares hold _ =>
    refine hkept hunknown fun m hm m' hexec => ?_
    obtain ⟨_, _, ⟨hname, -⟩ | ⟨-, rfl⟩⟩ := executes_of_declares hdeclares hexec
    · exact absurd ((hM.agrees m hm).eq_none_iff.1 hname) hold
    · rfl
  | @assignment name type position value e' _ hassigns htype hstorable =>
    simp only [State.store, Bindings.set] at hunknown
    split_ifs at hunknown with hother
    · subst hother
      obtain ⟨m, hm, u, hu, hw⟩ := exists_converts_of_unknown hM hstorable rfl
        (hassigns.numeralsOnly hnumerals) hunknown v
      obtain ⟨_, hx⟩ := (hM.agrees m hm).exists_value htype
      exact ⟨m, hm, _, .assignment hassigns hx hu hw, m.reads_set_self other ⟨type, v⟩⟩
    · refine hkept hunknown fun m _ m' hexec => ?_
      obtain ⟨_, _, _, -, -, -, rfl⟩ := executes_of_assigns hassigns hexec
      exact m.set_of_ne hother _
  | expression hexpression =>
    refine hkept hunknown fun m _ m' hexec => ?_
    rw [executes_of_expression hexpression hexec]

/-- The state behind a statement describes the memories to which the statement can lead. -/
theorem Describes.next (hM : Describes s M) (hnumerals : t.NumeralsOnly)
    (ht : statement s t = .next s' e diagnostics) :
    Describes s' {m' | ∃ m ∈ M, Executes m t m'} where
  nonempty := by
    obtain ⟨m, hm⟩ := hM.nonempty
    obtain ⟨m', hexec⟩ := (hM.agrees m hm).exists_executes ht
    exact ⟨m', m, hm, hexec⟩
  agrees := by
    rintro m' ⟨m, hm, hexec⟩
    exact (hM.agrees m hm).next hnumerals ht hexec
  free := by
    intro other hunknown v
    obtain ⟨m, hm, m', hexec, hreads⟩ := hM.exists_reads hnumerals ht hunknown v
    exact ⟨m', ⟨m, hm, hexec⟩, hreads⟩

/-- The state behind a list of statements describes the memories to which they can lead. -/
theorem Describes.run {ts : List Tree} (hM : Describes s M) (hnumerals : ∀ t ∈ ts, t.NumeralsOnly)
    {es : List Expr} (hrun : (Analysis.run s ts).result = .ok (es, diagnostics)) :
    Describes (Analysis.run s ts).state {m' | ∃ m ∈ M, Execution m ts m'} := by
  -- along the statements; the memories that are described grow into those behind each of them
  induction ts generalizing s M es diagnostics with
  | nil =>
    have hmemories : {m' | ∃ m ∈ M, Execution m [] m'} = M := by
      ext m'
      constructor
      · rintro ⟨m, hm, ⟨⟩⟩
        exact hm
      · exact fun hm => ⟨m', hm, .nil m'⟩
    rw [hmemories]
    exact hM
  | cons t ts ih =>
    obtain ⟨s', _, _, _, _, hstep, hrest, hstate, -⟩ := exists_of_run_cons_eq_ok hrun
    have hmemories : {m' | ∃ m ∈ M, Execution m (t :: ts) m'}
        = {m' | ∃ m ∈ {m' | ∃ m ∈ M, Executes m t m'}, Execution m ts m'} := by
      ext m''
      constructor
      · rintro ⟨m, hm, hexecution⟩
        cases hexecution with
        | cons hexec hrest => exact ⟨_, ⟨m, hm, hexec⟩, hrest⟩
      · rintro ⟨m', ⟨m, hm, hexec⟩, hexecution⟩
        exact ⟨m, hm, .cons hexec hexecution⟩
    rw [hstate, hmemories]
    refine ih (hM.next (hnumerals t List.mem_cons_self) hstep) ?_ hrest
    exact fun u hu => hnumerals u (List.mem_cons_of_mem _ hu)

/-- The initial state describes the empty memory. -/
theorem describes_initial : Describes .initial {.empty} where
  nonempty := ⟨_, rfl⟩
  agrees := by
    rintro _ rfl
    exact ⟨fun _ => rfl, fun _ _ hl => by cases hl⟩
  free := fun _ _ _ => ⟨_, rfl, fun _ hx => by cases hx⟩

end Statements

end Analysis

end ScalarLang
