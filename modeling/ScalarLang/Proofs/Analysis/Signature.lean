import ScalarLang.Proofs.Analysis.Statement

/-!
# Where variables are declared has no part in analysis

Analysis looks at the names and types of the declared variables only. Two states that agree in
these, in the order of the declarations, and in what the variables are known to hold, are alike.
-/

namespace ScalarLang

namespace SymbolTable

/-- The names and types of the declared variables, the earliest first. -/
def signature (table : SymbolTable) : List (String × ScalarType) :=
  table.symbols.map fun symbol => (symbol.name, symbol.type)

variable {table table' : SymbolTable}

/-- The type of a variable is the first one that is declared for its name. -/
theorem typeOf?_eq (table : SymbolTable) (name : String) :
    table.typeOf? name = (table.signature.find? (·.1 = name)).map Prod.snd := by
  rw [typeOf?, find?, signature, List.find?_map, Option.map_map]
  rfl

/-- The types of variables are those of the signature. -/
theorem typeOf?_congr (h : table.signature = table'.signature) (name : String) :
    table.typeOf? name = table'.typeOf? name := by
  rw [typeOf?_eq, typeOf?_eq, h]

/-- A name is declared if it has a type. -/
theorem isSome_find? (table : SymbolTable) (name : String) :
    (table.find? name).isSome = (table.typeOf? name).isSome := by
  rw [typeOf?, Option.isSome_map]

/-- A name is declared if the signature has it. -/
theorem find?_eq_none_congr (h : table.signature = table'.signature) (name : String) :
    table.find? name = none ↔ table'.find? name = none := by
  rw [← Option.isNone_iff_eq_none, ← Option.isNone_iff_eq_none, ← Option.not_isSome,
    ← Option.not_isSome, isSome_find?, isSome_find?, typeOf?_congr h]

end SymbolTable

namespace Analysis

/-- What is known in two states but for the places of the declarations. -/
structure State.Alike (s s' : State) : Prop where
  signature : s.symbols.signature = s'.symbols.signature
  bindings : s.bindings = s'.bindings

variable {s s' : State}

/-- The value of an expression is known alike in alike states. -/
theorem resolve_congr (h : s.Alike s') (e : Expr) :
    resolve s.symbols s.bindings e = resolve s'.symbols s'.bindings e := by
  induction e with
  | number | boolean | binary | declaration | assignment => rfl
  -- only variables look at what is known
  | var name =>
    rw [resolve, resolve, resolveVar, resolveVar, h.bindings, SymbolTable.typeOf?_congr h.signature]
  | parens inner ih => exact ih
  | unary op operand ih =>
    cases op with
    | minus => rw [resolve, resolve, ih]
    | not => rfl

/-- A value is refused in alike states alike. -/
theorem incompatible?_eq_none_congr (h : s.Alike s') {type : ScalarType} {e : Expr}
    {position position' : Option Position} :
    incompatible? s type e position = none ↔ incompatible? s' type e position' = none := by
  rw [incompatible?, incompatible?, resolve_congr h]
  cases resolve s'.symbols s'.bindings e with
  | none => simp
  | some operand => by_cases haccepts : type.accepts operand.type = true <;> simp [haccepts]

/-- Storing a value keeps states alike. -/
theorem State.Alike.store (h : s.Alike s') (name : String) (type : ScalarType) (e : Expr) :
    (s.store name type e).Alike (s'.store name type e) := by
  refine ⟨h.signature, ?_⟩
  change s.bindings.set name (stored type (resolve s.symbols s.bindings e)) = _
  rw [resolve_congr h, h.bindings]
  rfl

/-- Declaring a variable keeps states alike. -/
theorem State.Alike.enter (h : s.Alike s') (name : String) (type : ScalarType)
    (position position' : Option Position) :
    (s.enter name type position).Alike (s'.enter name type position') := by
  refine ⟨?_, h.bindings⟩
  unfold State.enter SymbolTable.declare?
  -- the name is new to both tables or to neither
  cases hfind : s.symbols.find? name with
  | none =>
    have hfind' := (SymbolTable.find?_eq_none_congr h.signature name).1 hfind
    have hsignature := h.signature
    unfold SymbolTable.signature at hsignature
    simp [hfind', SymbolTable.signature, hsignature]
  | some symbol =>
    cases hfind' : s'.symbols.find? name with
    | none => simp [(SymbolTable.find?_eq_none_congr h.signature name).2 hfind'] at hfind
    | some symbol' => exact h.signature

end Analysis

end ScalarLang
