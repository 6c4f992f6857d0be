import ScalarLang.Proofs.Analysis.Signature
import ScalarLang.Proofs.Analysis.Transition

/-!
# What a statement depends on and what it changes

The names of a statement are the one that it declares or assigns to and those that its value reads.
Analysis of the statement looks up these names alone, and what it makes known is about its target
alone. This is the frame theorem `exists_effect_of_statement`: a statement that is analysed to its end
has an `Effect`, which is about its names only, and has the same effect and the same result in every
state that knows the same of its names.

The module introduces:

* `Tree.reads`, `Tree.names`: the names that a value reads, and the names of a statement;
* `State.AgreesAt s s' name`: the two states know the same of `name`;
* `Effect`, `State.apply`: what a statement adds to what is known.
-/

namespace ScalarLang

namespace Tree

/-- The names that a value reads, from left to right. -/
def reads : Tree → List String
  | node .var name _ _ => [name]
  | node .parens _ _ [inner] => inner.reads
  | node (.unary _) _ _ [operand] => operand.reads
  | node (.binary _) _ _ [left, _, right] => left.reads ++ right.reads
  | _ => []

/-- The names of a statement: the one that it declares or assigns to, and those that it reads. -/
def names : Tree → List String
  | node .declaration _ _ [_, node _ name _ _, value] => name :: value.reads
  | node .assignment _ _ [node _ name _ _, value] => name :: value.reads
  | t => t.reads

end Tree

namespace SymbolTable

/-- A variable is looked up in the first part of a table, then in the second. -/
theorem typeOf?_append (xs ys : List Symbol) (name : String) :
    typeOf? ⟨xs ++ ys⟩ name = (typeOf? ⟨xs⟩ name).or (typeOf? ⟨ys⟩ name) := by
  simp only [typeOf?, find?, List.find?_append, Option.map_or]

/-- A name that no variable has is not found. -/
theorem typeOf?_eq_none {xs : List Symbol} {name : String} (h : name ∉ xs.map (·.name)) :
    typeOf? ⟨xs⟩ name = none := by
  rw [typeOf?, find?, Option.map_eq_none_iff, List.find?_eq_none]
  intro symbol hmem heq
  exact h (List.mem_map.2 ⟨symbol, hmem, of_decide_eq_true heq⟩)

end SymbolTable

namespace Analysis

/-! ## States that know the same of a name -/

/-- What the states know of a name is the same: its type, and what it holds. -/
structure State.AgreesAt (s s' : State) (name : String) : Prop where
  typeOf? : s.symbols.typeOf? name = s'.symbols.typeOf? name
  bindings : s.bindings name = s'.bindings name

namespace State.AgreesAt

variable {s s' s'' : State} {name : String}

theorem symm (h : s.AgreesAt s' name) : s'.AgreesAt s name := ⟨h.typeOf?.symm, h.bindings.symm⟩

theorem trans (h : s.AgreesAt s' name) (h' : s'.AgreesAt s'' name) : s.AgreesAt s'' name :=
  ⟨h.typeOf?.trans h'.typeOf?, h.bindings.trans h'.bindings⟩

/-- The name is new to both states or to neither. -/
theorem find?_eq_none_iff (h : s.AgreesAt s' name) :
    s.symbols.find? name = none ↔ s'.symbols.find? name = none := by
  rw [← Option.isNone_iff_eq_none, ← Option.isNone_iff_eq_none, ← Option.not_isSome,
    ← Option.not_isSome, SymbolTable.isSome_find?, SymbolTable.isSome_find?, h.typeOf?]

/-- Declaring a variable keeps what two states agree on. -/
theorem enter {target : String} (h : s.AgreesAt s' name) (htarget : s.AgreesAt s' target)
    (type : ScalarType) (position : Option Position) :
    (s.enter target type position).AgreesAt (s'.enter target type position) name := by
  by_cases hnew : s.symbols.find? target = none
  · have hnew' := htarget.find?_eq_none_iff.1 hnew
    refine ⟨?_, h.bindings⟩
    rw [typeOf?_enter hnew, typeOf?_enter hnew', h.typeOf?]
  · have hold := mt htarget.find?_eq_none_iff.2 hnew
    rw [s.enter_eq_self hnew, s'.enter_eq_self hold]
    exact h

end State.AgreesAt

/-! ## Values depend on the names that they read -/

variable {s s' : State} {symbols symbols' : SymbolTable} {t value : Tree} {e : Expr}
  {diagnostics : List Diagnostic}

/-- The analysis of a value looks up the names that it reads. -/
theorem expression_congr_of_reads
    (h : ∀ name ∈ t.reads, symbols.typeOf? name = symbols'.typeOf? name) :
    expression symbols t = expression symbols' t := by
  fun_induction expression symbols t with
  | case1 => rfl
  | case2 text position children literal hliteral => rw [expression, hliteral]
  | case3 text position children hliteral => rw [expression, hliteral]
  | case4 text position children literal hliteral => rw [expression, hliteral]
  | case5 text position children hliteral => rw [expression, hliteral]
  | case6 name position children =>
    have hname := h name List.mem_cons_self
    rw [expression, SymbolTable.isSome_find?, SymbolTable.isSome_find?, hname]
  | case7 text position inner ih => rw [expression, ih h]
  | case8 op text position operand ih => rw [expression, ih h]
  | case9 cls text position left op right ihl ihr =>
    rw [expression, ihl fun name hname => h name (List.mem_append_left _ hname),
      ihr fun name hname => h name (List.mem_append_right _ hname)]
  -- what is malformed does not read any name
  | case10 text position children hchildren => rw [expression]; exact hchildren
  | case11 op text position children hchildren => rw [expression]; exact hchildren
  | case12 cls text position children hchildren => rw [expression]; exact hchildren
  | case13 kind text position children =>
    rw [expression]
    all_goals assumption

/-- What is known of a value depends on the names that it reads. -/
theorem resolve_congr_of_reads (he : expression symbols t = .ok (e, diagnostics))
    (h : ∀ name ∈ t.reads, s.AgreesAt s' name) :
    resolve s.symbols s.bindings e = resolve s'.symbols s'.bindings e := by
  fun_induction expression symbols t generalizing e diagnostics with
  | case1 | case3 | case5 | case10 | case11 | case12 | case13 => cases he
  | case2 text position children literal hliteral =>
    cases he
    obtain ⟨value, -, rfl⟩ := Option.map_eq_some_iff.1 hliteral
    rfl
  | case4 text position children literal hliteral =>
    cases he
    unfold booleanLiteral? at hliteral
    split_ifs at hliteral <;> cases hliteral <;> rfl
  | case6 name position children =>
    cases he
    have hname := h name List.mem_cons_self
    rw [resolve, resolve, resolveVar, resolveVar, hname.bindings, hname.typeOf?]
  | case7 text position inner ih =>
    obtain ⟨⟨operand, _⟩, hinner, ⟨⟩⟩ := bind_eq_ok_iff.1 he
    rw [resolve, resolve, ih hinner h]
  | case8 op text position operand ih =>
    obtain ⟨⟨v, _⟩, hoperand, he⟩ := bind_eq_ok_iff.1 he
    obtain ⟨_, hunary, ⟨⟩⟩ := bind_eq_ok_iff.1 he
    obtain ⟨rfl, -⟩ := unaryExpr_eq_ok_iff.1 hunary
    -- only a minus looks at its operand
    cases op with
    | minus => rw [resolve, resolve, ih hoperand h]
    | not => rfl
  | case9 cls text position left op right =>
    obtain ⟨_, -, he⟩ := bind_eq_ok_iff.1 he
    obtain ⟨_, -, he⟩ := bind_eq_ok_iff.1 he
    obtain ⟨_, -, ⟨⟩⟩ := bind_eq_ok_iff.1 he
    rfl

/-- So does what is stored. -/
theorem storable_congr_of_reads (h : ∀ name ∈ value.reads, s.AgreesAt s' name) (type : ScalarType)
    (position : Option Position) :
    storable s type position value = storable s' type position value := by
  have hvalue := expression_congr_of_reads fun name hname => (h name hname).typeOf?
  unfold storable
  rw [← hvalue]
  cases hexpression : expression s.symbols value with
  | error reason => rfl
  | ok result =>
    simp only [bind, Except.bind, incompatible?, resolve_congr_of_reads hexpression h]

/-! ## Effects -/

/-- What a statement adds to what is known: the variables that it declares, and what it stores. -/
structure Effect where
  declared : List Symbol
  stored : Option (String × Option Literal)

/-- The names that an effect is about. -/
def Effect.names (effect : Effect) : List String :=
  effect.declared.map (·.name) ++ effect.stored.toList.map Prod.fst

/-- What is known after an effect. -/
def State.apply (s : State) (effect : Effect) : State where
  symbols := ⟨s.symbols.symbols ++ effect.declared⟩
  bindings := effect.stored.elim s.bindings fun (name, value) => s.bindings.set name value

namespace State

variable {name : String} {effect : Effect}

/-- An effect changes nothing of the names that it is not about. -/
theorem apply_agreesAt (s : State) (h : name ∉ effect.names) : (s.apply effect).AgreesAt s name := by
  obtain ⟨declared, stored⟩ := effect
  rw [Effect.names, List.mem_append, not_or] at h
  refine ⟨?_, ?_⟩
  · show SymbolTable.typeOf? ⟨s.symbols.symbols ++ declared⟩ name = _
    rw [SymbolTable.typeOf?_append, SymbolTable.typeOf?_eq_none h.1, Option.or_none]
  · cases stored with
    | none => rfl
    | some entry =>
      have hne : name ≠ entry.1 := by simpa using h.2
      exact if_neg hne

/-- An effect keeps what two states agree on. -/
theorem AgreesAt.apply (h : s.AgreesAt s' name) (effect : Effect) :
    (s.apply effect).AgreesAt (s'.apply effect) name := by
  obtain ⟨declared, stored⟩ := effect
  have htype : SymbolTable.typeOf? ⟨s.symbols.symbols⟩ name
      = SymbolTable.typeOf? ⟨s'.symbols.symbols⟩ name := h.typeOf?
  refine ⟨?_, ?_⟩
  · show SymbolTable.typeOf? ⟨s.symbols.symbols ++ declared⟩ name
      = SymbolTable.typeOf? ⟨s'.symbols.symbols ++ declared⟩ name
    rw [SymbolTable.typeOf?_append, SymbolTable.typeOf?_append, htype]
  · cases stored with
    | none => exact h.bindings
    | some entry =>
      show s.bindings.set entry.1 entry.2 name = s'.bindings.set entry.1 entry.2 name
      simp only [Bindings.set, h.bindings]

/-- A statement that adds nothing. -/
theorem apply_nothing (s : State) : s.apply ⟨[], none⟩ = s := by
  unfold State.apply
  rw [List.append_nil]
  rfl

/-- A declaration of a new name adds the variable and what it holds. -/
theorem enter_store_eq_apply (h : s.symbols.find? name = none) (type : ScalarType)
    (position : Option Position) (v : Expr) :
    (s.enter name type position).store name type v
      = s.apply ⟨[⟨name, type, position⟩], some (name, Analysis.stored type
          (resolve (s.enter name type position).symbols s.bindings v))⟩ := by
  unfold State.store State.apply
  rw [State.symbols_enter_of_new h]
  rfl

/-- An assignment adds what its variable holds. -/
theorem store_eq_apply (s : State) (name : String) (type : ScalarType) (v : Expr) :
    s.store name type v
      = s.apply ⟨[], some (name, Analysis.stored type (resolve s.symbols s.bindings v))⟩ := by
  unfold State.store State.apply
  rw [List.append_nil]
  rfl

end State

/-! ## The frame theorem -/

/-- What a statement reads is among its names. -/
theorem mem_names_of_mem_reads {name : String} (h : name ∈ t.reads) : name ∈ t.names := by
  unfold Tree.names
  split
  · simp [Tree.reads] at h
  · simp [Tree.reads] at h
  · exact h

/-- A declaration is analysed as such. -/
theorem Declares.statement_eq {name : String} {type : ScalarType} {position : Option Position}
    (h : Declares t name type position value) (s : State) :
    statement s t = declaration s type name position value := by
  obtain ⟨_, htype⟩ := h
  simp only [statement, htype]

/-- The names of a declaration. -/
theorem Declares.names_eq {name : String} {type : ScalarType} {position : Option Position}
    (h : Declares t name type position value) : t.names = name :: value.reads := by
  cases h
  rfl

/-- An assignment is analysed as such. -/
theorem Assigns.statement_eq {name : String} {position : Option Position}
    (h : Assigns t name position value) (s : State) :
    statement s t = assignment s name position value := by
  cases h
  rfl

/-- The names of an assignment. -/
theorem Assigns.names_eq {name : String} {position : Option Position}
    (h : Assigns t name position value) : t.names = name :: value.reads := by
  cases h
  rfl

/-- What can be analysed as an expression is a statement that adds nothing. -/
theorem statement_of_expression (h : expression s.symbols t = .ok (e, diagnostics)) :
    statement s t = .next s e diagnostics := by
  cases t with
  | missing => cases h
  | node kind text position children =>
    by_cases hkind : kind = .declaration ∨ kind = .assignment
    · rcases hkind with rfl | rfl <;> simp [expression] at h
    · rw [not_or] at hkind
      have heq := statement_eq_of_kind (s := s) (t := .node kind text position children)
        Tree.noConfusion hkind.1 hkind.2
      rw [heq, h]

/-- The frame theorem. A statement that is analysed to its end has an effect that is about its names
only, and it has the same result and the same effect in every state that knows the same of its
names. -/
theorem exists_effect_of_statement (h : statement s t = .next s' e diagnostics) :
    ∃ effect : Effect, s' = s.apply effect ∧ (∀ name ∈ effect.names, name ∈ t.names) ∧
      ∀ other : State, (∀ name ∈ t.names, s.AgreesAt other name) →
        statement other t = .next (other.apply effect) e diagnostics := by
  cases advance_of_statement h with
  | @first name type position value v _ hdeclares hnew hvalue =>
    refine ⟨_, s.enter_store_eq_apply hnew type position v, ?_, fun other hagrees => ?_⟩
    · simp [Effect.names, hdeclares.names_eq]
    · rw [hdeclares.names_eq, List.forall_mem_cons] at hagrees
      obtain ⟨hname, hreads⟩ := hagrees
      have hnew' := hname.find?_eq_none_iff.1 hnew
      -- the value is analysed where the variable is declared, and the states agree there too
      have hinner : ∀ n ∈ value.reads, (s.enter name type position).AgreesAt
          (other.enter name type position) n := fun n hn => (hreads n hn).enter hname type position
      have hexpression := (storable_eq_ok_iff.1 hvalue).1
      have hresolve : resolve (s.enter name type position).symbols s.bindings v
          = resolve (other.enter name type position).symbols other.bindings v :=
        resolve_congr_of_reads hexpression hinner
      rw [hdeclares.statement_eq, declaration_eq, ← storable_congr_of_reads hinner, hvalue]
      simp only [hnew', if_true, other.enter_store_eq_apply hnew', hresolve]
  | @again name type position value v _ hdeclares hold hvalue =>
    refine ⟨⟨[], none⟩, s.apply_nothing.symm, by simp [Effect.names], fun other hagrees => ?_⟩
    rw [hdeclares.names_eq, List.forall_mem_cons] at hagrees
    obtain ⟨hname, hreads⟩ := hagrees
    have hold' := mt hname.find?_eq_none_iff.2 hold
    rw [hdeclares.statement_eq, declaration_eq, other.enter_eq_self hold',
      ← storable_congr_of_reads hreads, hvalue]
    simp only [hold', if_false, other.apply_nothing]
  | @assignment name type position value v _ hassigns htype hvalue =>
    refine ⟨_, s.store_eq_apply name type v, ?_, fun other hagrees => ?_⟩
    · simp [Effect.names, hassigns.names_eq]
    · rw [hassigns.names_eq, List.forall_mem_cons] at hagrees
      obtain ⟨hname, hreads⟩ := hagrees
      have htype' := hname.typeOf?.symm.trans htype
      have hresolve := resolve_congr_of_reads (storable_eq_ok_iff.1 hvalue).1 hreads
      rw [hassigns.statement_eq, assignment_eq, htype']
      simp only [← storable_congr_of_reads hreads, hvalue, other.store_eq_apply, hresolve]
  | expression hvalue =>
    refine ⟨⟨[], none⟩, s.apply_nothing.symm, by simp [Effect.names], fun other hagrees => ?_⟩
    have hreads : ∀ name ∈ t.reads, s.symbols.typeOf? name = other.symbols.typeOf? name :=
      fun name hname => (hagrees name (mem_names_of_mem_reads hname)).typeOf?
    rw [expression_congr_of_reads hreads] at hvalue
    rw [statement_of_expression hvalue, other.apply_nothing]

end Analysis

end ScalarLang
