import ScalarLang.Proofs.Analysis.Transition

/-!
# Values are refused by declared types

Analysis tracks what variables are known to hold, and looks there before it looks at their types.
Still the type of what is known of a value is the type that follows from the declarations alone:
what a variable is known to hold always has the declared type of the variable (`State.Typed`). So
whether a value is refused does not depend on what has been stored before.

* `declaredType symbols e`: the type of `e` by the declarations alone.
* `Reachable s`: analysis can be in the state `s`.
* `declaredType_of_resolve`: what is known of a value has its declared type.
* `refused_by_declared_type`: when a value is refused.
-/

namespace ScalarLang.Analysis

/-- The type of an expression by the declared types of its variables alone. Operators have none, the
sign apart. -/
def declaredType (symbols : SymbolTable) : Expr → Option ScalarType
  | .number _ isInteger => some (if isInteger then .int else .float)
  | .boolean _ => some .bool
  | .var name => symbols.typeOf? name
  | .parens inner => declaredType symbols inner
  | .unary .minus operand => declaredType symbols operand
  | _ => none

/-- A literal or a declared variable, with any number of parentheses around it. -/
inductive IsAtom (symbols : SymbolTable) : Expr → Prop
  | number (value : Binary64) (isInteger : Bool) : IsAtom symbols (.number value isInteger)
  | boolean (value : Bool) : IsAtom symbols (.boolean value)
  | var {name : String} (h : (symbols.typeOf? name).isSome = true) : IsAtom symbols (.var name)
  | parens {inner : Expr} (h : IsAtom symbols inner) : IsAtom symbols (.parens inner)

/-- The states that analysis can be in, between two statements or in the value of one. The
statements are trees of any shape. -/
inductive Reachable : State → Prop
  | initial : Reachable .initial
  | next {s s' : State} {t : Tree} {e : Expr} {diagnostics : List Diagnostic} (h : Reachable s)
      (ht : statement s t = .next s' e diagnostics) : Reachable s'
  | inside {s inner : State} {t value : Tree} {target : ScalarType} {position : Option Position}
      (h : Reachable s) (ht : Stores s t inner target position value) : Reachable inner

/-- What a variable is known to hold has the declared type of the variable. -/
def State.Typed (s : State) : Prop :=
  ∀ name literal, s.bindings name = some literal → s.symbols.typeOf? name = some literal.type

variable {s s' : State} {name : String} {type : ScalarType} {e : Expr}

/-! ## What a state knows -/

/-- What a variable holds after a value is stored has the type of the variable. -/
theorem type_of_stored {operand : Option Operand} {literal : Literal}
    (h : stored type operand = some literal) : literal.type = type := by
  unfold stored at h
  split at h
  · split_ifs at h <;> cases h <;> rfl
  · cases h

/-- Storing a value in a declared variable keeps the types. -/
theorem State.Typed.store (h : s.Typed) (hname : s.symbols.typeOf? name = some type) (e : Expr) :
    (s.store name type e).Typed := by
  intro other literal hliteral
  simp only [State.store, Bindings.set] at hliteral ⊢
  split_ifs at hliteral with hother
  · rw [hother, hname, type_of_stored hliteral]
  · exact h other literal hliteral

/-- Declaring a variable keeps the types. -/
theorem State.Typed.enter (h : s.Typed) (name : String) (type : ScalarType)
    (position : Option Position) : (s.enter name type position).Typed := by
  by_cases hnew : s.symbols.find? name = none
  · intro other literal hliteral
    have htype := h other literal hliteral
    have hother : other ≠ name := by
      rintro rfl
      simp [SymbolTable.typeOf?, hnew] at htype
    rwa [typeOf?_enter hnew, if_neg hother]
  · rwa [s.enter_eq_self hnew]

/-- A statement keeps the types. -/
theorem State.Typed.next {t : Tree} {diagnostics : List Diagnostic} (h : s.Typed)
    (ht : statement s t = .next s' e diagnostics) : s'.Typed := by
  cases advance_of_statement ht with
  | first _ hnew _ => exact (h.enter _ _ _).store (by rw [typeOf?_enter hnew, if_pos rfl]) _
  | again | expression => exact h
  | assignment _ htype _ => exact h.store htype _

/-- In every state that analysis can be in, what a variable is known to hold has the declared type
of the variable. -/
theorem Reachable.typed (h : Reachable s) : s.Typed := by
  induction h with
  | initial =>
    intro name literal hliteral
    cases hliteral
  | next _ ht ih => exact ih.next ht
  | inside _ ht ih =>
    cases ht with
    | declaration => exact ih.enter _ _ _
    | assignment => exact ih

/-- Statements lead from a state that can be reached to one that can. -/
theorem Reachable.run (h : Reachable s) (ts : List Tree)
    {result : List Expr × List Diagnostic} (hrun : (Analysis.run s ts).result = .ok result) :
    Reachable (Analysis.run s ts).state := by
  induction ts generalizing s result with
  | nil => exact h
  | cons t ts ih =>
    obtain ⟨s', _, _, _, _, hstep, hrest, hstate, -⟩ := exists_of_run_cons_eq_ok hrun
    rw [hstate]
    exact ih (h.next hstep) hrest

/-! ## Declared types -/

/-- What is known of a value has its declared type. -/
theorem declaredType_of_resolve (h : s.Typed) {operand : Operand}
    (hresolve : resolve s.symbols s.bindings e = some operand) :
    declaredType s.symbols e = some operand.type := by
  induction e generalizing operand with
  | number value isInteger =>
    cases hresolve
    rfl
  | boolean value =>
    cases hresolve
    rfl
  | var name =>
    rw [resolve, resolveVar] at hresolve
    split at hresolve
    -- the bindings are looked at first, and they agree with the table
    next literal hliteral =>
      cases hresolve
      exact h name literal hliteral
    next =>
      obtain ⟨type, htype, rfl⟩ := Option.map_eq_some_iff.1 hresolve
      exact htype
  | parens inner ih => exact ih hresolve
  | unary op inner ih =>
    cases op with
    | not => cases hresolve
    | minus =>
      rw [resolve] at hresolve
      split at hresolve
      next literal hliteral =>
        -- the sign changes the text, not the type
        split_ifs at hresolve
        cases hresolve
        have hinner := ih hliteral
        exact hinner
      next => cases hresolve
  | binary | declaration | assignment => cases hresolve

/-- Of a literal or a declared variable something is always known. -/
theorem IsAtom.exists_resolve (h : IsAtom s.symbols e) :
    ∃ operand, resolve s.symbols s.bindings e = some operand := by
  induction h with
  | number | boolean => exact ⟨_, rfl⟩
  | parens _ ih => exact ih
  | @var name hname =>
    obtain ⟨type, htype⟩ := Option.isSome_iff_exists.1 hname
    rw [resolve, resolveVar, htype]
    cases s.bindings name with
    | none => exact ⟨_, rfl⟩
    | some literal => exact ⟨_, rfl⟩

/-- Values are refused by declared types alone. In every state that analysis can be in, what is
known of a value has its declared type, and so a value is refused only if it has a declared type
that the type of the target does not accept. A literal or declared variable in parentheses is
refused exactly then. -/
theorem refused_by_declared_type (h : Reachable s) :
    (∀ e operand, resolve s.symbols s.bindings e = some operand →
        declaredType s.symbols e = some operand.type) ∧
      (∀ t s' target type text position,
        statement s t = .halt s' (.fatal ⟨.incompatible target type text, position⟩) →
          ∃ value v diagnostics, Stores s t s' target position value ∧
            expression s'.symbols value = .ok (v, diagnostics) ∧
              declaredType s'.symbols v = some type ∧ target.accepts type = false) ∧
      ∀ e, IsAtom s.symbols e → ∀ target position type,
        (∃ text, incompatible? s target e position
            = some ⟨.incompatible target type text, position⟩) ↔
          declaredType s.symbols e = some type ∧ target.accepts type = false := by
  refine ⟨fun e operand => declaredType_of_resolve h.typed, ?_, ?_⟩
  · intro t s' target type text position ht
    obtain ⟨value, v, diagnostics, hstores, hvalue, hreport⟩ := exists_stores_of_incompatible ht
    obtain ⟨operand, hresolve, haccepts, hd⟩ := incompatible?_eq_some_iff.1 hreport
    cases hd
    -- the value is analysed in a state that can be reached as well
    have hinner : s'.Typed := (h.inside hstores).typed
    have htype := declaredType_of_resolve hinner hresolve
    exact ⟨value, v, diagnostics, hstores, hvalue, htype, haccepts⟩
  · intro e he target position type
    obtain ⟨operand, hresolve⟩ := he.exists_resolve (s := s)
    have htype := declaredType_of_resolve h.typed hresolve
    constructor
    · rintro ⟨text, hreport⟩
      obtain ⟨_, hresolve', haccepts, hd⟩ := incompatible?_eq_some_iff.1 hreport
      cases hd
      exact ⟨declaredType_of_resolve h.typed hresolve', haccepts⟩
    · rintro ⟨htype', haccepts⟩
      obtain rfl := Option.some.inj (htype.symm.trans htype')
      exact ⟨operand.text, incompatible?_eq_some_iff.2 ⟨operand, hresolve, haccepts, rfl⟩⟩

/-- Behind `float x = 2; bool x = !x; x = 3;` the value `(x)` is refused for a variable of type
`int`. -/
theorem refused_by_declared_type_sample :
    let ts : List Tree :=
      [.node .declaration "" none
        [.leaf .token "float" none, .leaf .token "x" none, .leaf .number "2" none],
      .node .declaration "" none
        [.leaf .token "bool" none, .leaf .token "x" none,
          .node (.unary .not) "" none [.leaf .var "x" none]],
      .node .assignment "" none [.leaf .token "x" none, .leaf .number "3" none]]
    let s := (run .initial ts).state
    Reachable s ∧ IsAtom s.symbols (.parens (.var "x")) ∧
      ∃ text, incompatible? s .int (.parens (.var "x")) none
        = some ⟨.incompatible .int .float text, none⟩ := by
  intro ts s
  have hrun : (run .initial ts).result = .ok
      ([.declaration "x" .float (.number (.ofRatio false 2 1) true),
        .declaration "x" .bool (.unary .not (.var "x")),
        .assignment "x" (.number (.ofRatio false 3 1) true)],
        [⟨.alreadyDeclared "x", none⟩]) := by decide +kernel
  have hs : Reachable s := Reachable.initial.run ts hrun
  have hatom : IsAtom s.symbols (.parens (.var "x")) := .parens (.var (by decide +kernel))
  have htype : declaredType s.symbols (.parens (.var "x")) = some .float := by decide +kernel
  exact ⟨hs, hatom, ((refused_by_declared_type hs).2.2 _ hatom .int none .float).2 ⟨htype, rfl⟩⟩

end ScalarLang.Analysis
