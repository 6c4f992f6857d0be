import ScalarLang.Proofs.Analysis.Transition
import ScalarLang.Proofs.Source.Fatal
import ScalarLang.Proofs.Symbols.History

/-!
# What is reported of a source, and which variables it has

Analysis reports two things without ending: a name that is declared again, and a variable that is
read where it is not declared. Both can be told from the identifiers of the source alone. Each has a
role in its statement, and where it stands some names are declared (its scope): those of earlier
declarations, and in the value of a declaration the declared name as well. We prove:

* `diagnostics_run`: what is reported of a program is what its identifiers call for, in their order;
* `exists_reached`: the variables are the first declarations of each name among the statements that
  analysis has reached;
* `diagnosis_of_source`: both, for a whole source.
-/

namespace ScalarLang

/-! ## Identifiers -/

namespace Analysis

open ScalarLang.Grammar ScalarLang.Lexeme ScalarLang.SymbolTable

/-- What an identifier is there for. -/
inductive Role
  /-- To be declared. -/
  | declared
  /-- To be given a value. -/
  | assigned
  /-- To be read. -/
  | read
  deriving DecidableEq, Repr

/-- An identifier, its role, and the names that are declared where it stands. -/
structure Occurrence where
  token : Token
  role : Role
  scope : List String
  deriving DecidableEq, Repr

/-- What an identifier is reported for: that its name is declared again, or read without being
declared. -/
def Occurrence.report? (o : Occurrence) : Option Diagnostic :=
  match o.role with
  | .declared =>
    if o.token.text ∈ o.scope then some ⟨.alreadyDeclared o.token.text, o.token.position⟩ else none
  | .assigned => none
  | .read =>
    if o.token.text ∈ o.scope then none else some ⟨.undeclared o.token.text, o.token.position⟩

/-- The identifiers among the tokens of a value. -/
def reads (scope : List String) (ts : List Token) : List Occurrence :=
  (ts.filter (·.kind = .identifier)).map (⟨·, .read, scope⟩)

/-- The identifiers of a statement in front of which the names `scope` are declared. -/
def occurrences (scope : List String) : Statement → List Occurrence
  | .declaration _ name _ value =>
    ⟨name.val, .declared, scope⟩ :: reads (scope ++ [name.val.text]) value.tokens
  | .assignment name _ value => ⟨name.val, .assigned, scope⟩ :: reads scope value.tokens
  | .expression value => reads scope value.tokens

/-- The variable that a statement declares. -/
def declaration? : Statement → Option Symbol
  | .declaration type name _ _ =>
    (ScalarType.ofName? type.val.text).map fun type => ⟨name.val.text, type, name.val.position⟩
  | _ => none

/-- The variables that statements declare, in order and with repetitions. -/
def declarations (sts : List Statement) : List Symbol :=
  sts.filterMap declaration?

/-- The identifiers of statements in front of which the names `scope` are declared. -/
def allOccurrences (scope : List String) : List Statement → List Occurrence
  | [] => []
  | d :: sts => occurrences scope d ++ allOccurrences (scope ++ names (declarations [d])) sts

variable {scope : List String} {symbols : SymbolTable} {e : Expr} {diagnostics : List Diagnostic}

@[simp] theorem reads_append (scope : List String) (ts us : List Token) :
    reads scope (ts ++ us) = reads scope ts ++ reads scope us := by
  simp [reads]

/-- Only identifiers are read. -/
theorem reads_cons_of_ne {t : Token} (ht : t.kind ≠ .identifier) (ts : List Token) :
    reads scope (t :: ts) = reads scope ts := by
  simp [reads, ht]

/-- No operator is an identifier. -/
theorem kind_ne_identifier_of_mem {kind : Token.Kind} {cls : BinaryClass}
    (h : kind ∈ operators cls) : kind ≠ .identifier := by
  rintro rfl
  cases cls <;> simp [operators] at h

/-- The identifiers of a value are the variables that it reads, and those that are not declared are
reported. -/
theorem diagnostics_expression {s : Nonterminal} (d : Phrase s)
    (hscope : ∀ name, (symbols.find? name).isSome = true ↔ name ∈ scope)
    (h : expression symbols d.tree = .ok (e, diagnostics)) :
    diagnostics = (reads scope d.tokens).filterMap Occurrence.report? := by
  induction d generalizing e diagnostics with
  | operand inner ih => exact ih h
  | primary inner ih => exact ih h
  | number literal =>
    obtain ⟨-, rfl⟩ := expression_number_eq_ok_iff.1 h
    rw [Phrase.tokens, reads_cons_of_ne (by simp [literal.property])]
    rfl
  | boolean literal =>
    obtain ⟨-, rfl⟩ := expression_boolean_eq_ok_iff.1 h
    rw [Phrase.tokens, reads_cons_of_ne (by simp [literal.property])]
    rfl
  | var name =>
    cases h
    by_cases hname : name.val.text ∈ scope
    · simp [(hscope _).2 hname, Phrase.tokens, reads, name.property, Occurrence.report?, hname]
    · have hnone : ¬(symbols.find? name.val.text).isSome = true := fun h => hname ((hscope _).1 h)
      rw [if_neg hnone]
      simp [Phrase.tokens, reads, name.property, Occurrence.report?, hname]
  | unary op sign inner ih =>
    obtain ⟨operand, hoperand, -, -⟩ := expression_unary_eq_ok_iff.1 h
    rw [ih hoperand, Phrase.tokens, reads_cons_of_ne]
    rw [sign.property]
    cases op <;> decide
  | parens opening inner closing ih =>
    obtain ⟨operand, hoperand, -⟩ := expression_parens_eq_ok_iff.1 h
    rw [ih hoperand, Phrase.tokens, reads_cons_of_ne (by simp [opening.property]), reads_append,
      reads_cons_of_ne (by simp [closing.property])]
    simp [reads]
  | binary left op right ihl ihr =>
    obtain ⟨_, _, _, _, _, hleft, hright, -, -, rfl⟩ := expression_binary_eq_ok_iff.1 h
    rw [ihl hleft, ihr hright, Phrase.tokens, reads_append,
      reads_cons_of_ne (kind_ne_identifier_of_mem op.property), List.filterMap_append]

/-! ## Statements -/

section Statements

variable {s s' : State} {declared : List Symbol}

/-- A declaration adds to the table of first declarations, be its name new or not. -/
theorem symbols_enter (h : s.symbols.symbols = firsts declared) (name : String) (type : ScalarType)
    (position : Option Position) :
    (s.enter name type position).symbols.symbols
      = firsts (declared ++ [⟨name, type, position⟩]) := by
  have hfind := isSome_find?_iff h name
  rw [firsts_append_singleton]
  by_cases hname : name ∈ names declared
  · rw [if_pos hname, State.enter_eq_self, h]
    exact Option.isSome_iff_ne_none.1 (hfind.2 hname)
  · have hnone : s.symbols.find? name = none := by
      simpa [hname] using hfind
    rw [if_neg hname, State.symbols_enter_of_new hnone, h]

/-- A statement adds its declaration to the table of first declarations, even if the analysis ends
in it. -/
theorem symbols_statement (d : Statement)
    (hspelled : ∀ t ∈ d.tokens, Spelled t.kind t.text.toList)
    (h : s.symbols.symbols = firsts declared) :
    (statement s d.tree).state.symbols.symbols = firsts (declared ++ declarations [d]) := by
  cases d with
  | declaration type name assign value =>
    obtain ⟨scalarType, hscalar⟩ := exists_ofName? type.property (hspelled _ List.mem_cons_self)
    have hdeclarations : declarations [.declaration type name assign value]
        = [⟨name.val.text, scalarType, name.val.position⟩] := by
      simp [declarations, declaration?, hscalar]
    rw [statement_declaration s type name assign value hscalar, declaration_eq, hdeclarations,
      ← symbols_enter h]
    -- the name is entered before the value is analysed
    split
    · rfl
    · split_ifs <;> rfl
  | assignment name assign value =>
    have hdeclarations : declarations [.assignment name assign value] = [] := rfl
    rw [statement_assignment, assignment_eq, hdeclarations, List.append_nil, ← h]
    split
    · rfl
    · split <;> rfl
  | expression value =>
    have hdeclarations : declarations [.expression value] = [] := rfl
    rw [statement_expression, hdeclarations, List.append_nil, ← h]
    split <;> rfl

/-- What is reported of a statement is what its identifiers call for. -/
theorem diagnostics_statement (d : Statement) (h : s.symbols.symbols = firsts declared)
    (hnext : statement s d.tree = .next s' e diagnostics) :
    diagnostics = (occurrences (names declared) d).filterMap Occurrence.report? := by
  have hscope := isSome_find?_iff h
  cases d with
  | declaration type name assign value =>
    obtain ⟨scalarType, -, hdeclaration⟩ := exists_declaration_of_statement hnext
    have hinner := isSome_find?_iff (symbols_enter h name.val.text scalarType name.val.position)
    rw [names_append] at hinner
    rw [declaration_eq] at hdeclaration
    split at hdeclaration
    · cases hdeclaration
    next v inner hvalue =>
      obtain ⟨hvalue, -⟩ := storable_eq_ok_iff.1 hvalue
      have hreads := diagnostics_expression value hinner hvalue
      have hname : s.symbols.find? name.val.text = none ↔ name.val.text ∉ names declared := by
        rw [← hscope, Option.not_isSome_iff_eq_none]
      split_ifs at hdeclaration with hnew <;> cases hdeclaration
      · have hnot := hname.1 hnew
        rw [hreads, occurrences, List.filterMap_cons_none (by simp [Occurrence.report?, hnot])]
        rfl
      · have hmem : name.val.text ∈ names declared := by
          by_contra hnot
          exact hnew (hname.2 hnot)
        rw [hreads, occurrences, List.filterMap_cons_some (by simp [Occurrence.report?, hmem]; rfl)]
        rfl
  | assignment name assign value =>
    rw [statement_assignment, assignment_eq] at hnext
    split at hnext
    · cases hnext
    · split at hnext <;> cases hnext
      next hvalue =>
      obtain ⟨hvalue, -⟩ := storable_eq_ok_iff.1 hvalue
      rw [diagnostics_expression value hscope hvalue, occurrences,
        List.filterMap_cons_none (by simp [Occurrence.report?])]
  | expression value =>
    obtain ⟨-, hvalue⟩ := statement_expression_eq_next_iff.1 hnext
    exact diagnostics_expression value hscope hvalue

end Statements

/-! ## Programs -/

section Programs

variable {s : State} {declared : List Symbol}

/-- What is reported of a program that is analysed to its end is what its identifiers call for. -/
theorem diagnostics_run (sts : List Statement)
    (hspelled : ∀ d ∈ sts, ∀ t ∈ d.tokens, Spelled t.kind t.text.toList)
    (h : s.symbols.symbols = firsts declared) {es : List Expr}
    (hrun : (run s (sts.map Statement.tree)).result = .ok (es, diagnostics)) :
    diagnostics = (allOccurrences (names declared) sts).filterMap Occurrence.report? := by
  induction sts generalizing s declared es diagnostics with
  | nil =>
    cases hrun
    rfl
  | cons d sts ih =>
    obtain ⟨s', _, _, _, _, hstep, hrest, -, -, rfl⟩ := exists_of_run_cons_eq_ok hrun
    have hs' := symbols_statement d (hspelled d List.mem_cons_self) h
    rw [hstep] at hs'
    have hlater := ih (fun d hmem => hspelled d (List.mem_cons_of_mem _ hmem)) hs' hrest
    rw [diagnostics_statement d h hstep, hlater, allOccurrences, List.filterMap_append,
      names_append]

/-- The variables are the first declarations among the statements that analysis has reached: all of
them, or those up to the one in which it ended. -/
theorem exists_reached (sts : List Statement)
    (hspelled : ∀ d ∈ sts, ∀ t ∈ d.tokens, Spelled t.kind t.text.toList)
    (h : s.symbols.symbols = firsts declared) :
    ∃ reached rest, sts = reached ++ rest ∧
      (run s (sts.map Statement.tree)).state.symbols.symbols
          = firsts (declared ++ declarations reached) ∧
        (halt? (run s (sts.map Statement.tree)).result = none → rest = []) ∧
          ∀ reason, halt? (run s (sts.map Statement.tree)).result = some reason →
            ∃ before last, reached = before ++ [last] ∧
              halt? (run s (before.map Statement.tree)).result = none ∧
                halt? (run s (reached.map Statement.tree)).result = some reason := by
  induction sts generalizing s declared with
  | nil =>
    have htable : s.symbols.symbols = firsts (declared ++ declarations []) := by
      simpa [declarations] using h
    exact ⟨[], [], rfl, htable, fun _ => rfl, by simp [run, halt?]⟩
  | cons d sts ih =>
    have hs' := symbols_statement d (hspelled d List.mem_cons_self) h
    cases hstep : statement s d.tree with
    | halt s' reason =>
      have hrun (ts : List Tree) : run s (d.tree :: ts) = ⟨s', .error reason⟩ := by
        rw [run, hstep]
      rw [hstep] at hs'
      refine ⟨[d], sts, rfl, ?_, ?_, ?_⟩
      · rw [List.map_cons, hrun]
        exact hs'
      · rw [List.map_cons, hrun]
        rintro ⟨⟩
      · rw [List.map_cons, hrun]
        rintro _ ⟨⟩
        exact ⟨[], d, rfl, rfl, by rw [List.map_cons, hrun]; rfl⟩
    | next s' e diagnostics =>
      have hrun (ts : List Tree) : run s (d.tree :: ts) = (run s' ts).cons e diagnostics := by
        rw [run, hstep]
      have hhalt (ts : List Tree) :
          halt? (run s (d.tree :: ts)).result = halt? (run s' ts).result := by
        rw [hrun, halt?_cons]
      rw [hstep] at hs'
      obtain ⟨reached, rest, rfl, hsymbols, hnone, hsome⟩ :=
        ih (fun d hmem => hspelled d (List.mem_cons_of_mem _ hmem)) hs'
      refine ⟨d :: reached, rest, rfl, ?_, ?_, ?_⟩
      · rw [List.map_cons, hrun]
        refine hsymbols.trans ?_
        rw [List.append_assoc]
        exact congrArg (fun later => firsts (declared ++ later)) List.filterMap_append.symm
      · rw [List.map_cons, hhalt]
        exact hnone
      · rw [List.map_cons, hhalt]
        intro reason hreason
        obtain ⟨before, last, rfl, hbefore, hlast⟩ := hsome reason hreason
        refine ⟨d :: before, last, rfl, ?_, ?_⟩
        · rwa [List.map_cons, hhalt]
        · rwa [List.map_cons, hhalt]

/-- The identifiers of a statement are all there are among its tokens. -/
theorem map_token_occurrences (scope : List String) (d : Statement) :
    (occurrences scope d).map (·.token) = d.tokens.filter (·.kind = .identifier) := by
  have hreads (scope : List String) (ts : List Token) :
      (reads scope ts).map (·.token) = ts.filter (·.kind = .identifier) := by
    simp [reads, Function.comp_def]
  cases d with
  | declaration type name assign value =>
    simp [occurrences, Statement.tokens, hreads, type.property, name.property, assign.property]
  | assignment name assign value =>
    simp [occurrences, Statement.tokens, hreads, name.property, assign.property]
  | expression value => exact hreads scope value.tokens

/-- The identifiers of a program are all there are among its tokens, in their order. -/
theorem map_token_allOccurrences (scope : List String) (d : Derivation) :
    (allOccurrences scope (d.map Prod.fst)).map (·.token)
      = d.tokens.filter (·.kind = .identifier) := by
  induction d generalizing scope with
  | nil => rfl
  | cons statement d ih =>
    obtain ⟨statement, semicolon⟩ := statement
    have hsemicolon : semicolon.val.kind ≠ .identifier := by simp [semicolon.property]
    rw [List.map_cons, allOccurrences, List.map_append, map_token_occurrences, ih,
      Derivation.tokens_cons, List.filter_append,
      List.filter_cons_of_neg (by simpa using hsemicolon)]

end Programs

end Analysis

/-! ## Sources -/

open Analysis Grammar SymbolTable

/-- The analysis of a program ends early exactly at its first violation. -/
theorem Analysis.halt?_run_initial_iff {sts : List Statement}
    (hspelled : ∀ d ∈ sts, ∀ t ∈ d.tokens, Lexeme.Spelled t.kind t.text.toList) (reason : Halt) :
    halt? (run .initial (sts.map Statement.tree)).result = some reason ↔
      ∃ diagnostic, reason = .fatal diagnostic ∧
        FirstViolation [] (sts.map Statement.tree) diagnostic := by
  apply halt?_run_iff sts hspelled leads_nil
  simp [State.initial, SymbolTable.typeOf?, SymbolTable.find?, SymbolTable.empty]

/-- Statements of the grammar have no missing node. -/
theorem Analysis.halt?_run_ne_missingNode {sts : List Statement}
    (hspelled : ∀ d ∈ sts, ∀ t ∈ d.tokens, Lexeme.Spelled t.kind t.text.toList) :
    halt? (run .initial (sts.map Statement.tree)).result ≠ some .missingNode := by
  intro hmissing
  obtain ⟨_, ⟨⟩, -⟩ := (halt?_run_initial_iff hspelled _).1 hmissing

/-- The verdict on a tree says what the analysis of its statements has come to. -/
theorem Verdict.exists_ofTree? (position : Option Position) {statements : List Tree}
    (h : halt? (run .initial statements).result ≠ some .missingNode) :
    ∃ v, Verdict.ofTree? (.node .program "" position statements) = some v ∧
      v.symbols = (run .initial statements).state.symbols ∧
        (v.fatal = none → ∃ es, (run .initial statements).result = .ok (es, v.errors)) ∧
          ∀ diagnostic, v.fatal = some diagnostic →
            halt? (run .initial statements).result = some (.fatal diagnostic) := by
  rw [Verdict.ofTree?]
  generalize run .initial statements = run at h ⊢
  rcases run with ⟨s, (first | _) | ⟨es, errors⟩⟩
  · exact ⟨_, rfl, rfl, by simp [Verdict.ofFatal], by simp [Verdict.ofFatal, halt?]⟩
  · exact absurd rfl h
  · refine ⟨_, rfl, ?_⟩
    simp only [Verdict.ofStatements]
    cases errors with
    | nil => exact ⟨rfl, fun _ => ⟨es, rfl⟩, by simp⟩
    | cons error errors => exact ⟨rfl, fun _ => ⟨es, rfl⟩, by simp⟩

namespace Report

/-- What is reported of a source without syntax errors and which variables it has. The source has a
derivation, and its identifiers are those of the derivation. Unless the source is rejected for a
fatal reason, the errors are what the identifiers call for, in their order. In any case the
variables are the first declarations of each name among the statements that analysis has reached:
all of them, or those up to and including the one in which it ended. -/
theorem diagnosis_of_source {filename : String} {source : List UInt8}
    (h : (Parse.ofSource source).errors = []) :
    ∃ (d : Derivation) (v : Verdict), d.tokens = Parse.sentence source ∧
      (ofSource filename source).verdict = some v ∧
        (allOccurrences [] (d.map Prod.fst)).map (·.token)
            = (Parse.sentence source).filter (·.kind = .identifier) ∧
          (v.fatal = none →
            v.errors = (allOccurrences [] (d.map Prod.fst)).filterMap Occurrence.report?) ∧
            ∃ reached rest, d.map Prod.fst = reached ++ rest ∧
              v.symbols.symbols = firsts (declarations reached) ∧ (v.fatal = none → rest = []) ∧
                ∀ diagnostic, v.fatal = some diagnostic → ∃ before last,
                  reached = before ++ [last] ∧
                    halt? (run .initial (before.map Statement.tree)).result = none ∧
                      halt? (run .initial (reached.map Statement.tree)).result
                        = some (.fatal diagnostic) := by
  obtain ⟨d, htokens, hstatements, hspelled⟩ := Parse.exists_statements_of_ofSource h
  have hinitial : State.initial.symbols.symbols = firsts [] := rfl
  have hmissing := halt?_run_ne_missingNode hspelled
  rw [← hstatements] at hmissing
  obtain ⟨v, hv, hsymbols, hok, hfatal⟩ :=
    Verdict.exists_ofTree? (some Position.start) hmissing
  rw [hstatements] at hsymbols hok hfatal
  obtain ⟨reached, rest, hsplit, htable, hnone, hsome⟩ := exists_reached _ hspelled hinitial
  refine ⟨d, v, htokens, ?_, ?_, fun hv => ?_, reached, rest, hsplit, ?_, fun hv => ?_, ?_⟩
  · rw [ofSource_of_errors_eq_nil h]
    exact hv
  · rw [map_token_allOccurrences, htokens]
  · obtain ⟨es, hrun⟩ := hok hv
    exact diagnostics_run _ hspelled hinitial hrun
  · rw [hsymbols, htable, List.nil_append]
  · obtain ⟨es, hrun⟩ := hok hv
    exact hnone (by rw [hrun]; rfl)
  · exact fun diagnostic hdiagnostic => hsome _ (hfatal diagnostic hdiagnostic)

/-- A name is declared twice, once with a value that reads it, and others are never declared. -/
theorem diagnosis_of_source_sample :
    let source := Utf8.encode "x; int x = -y; float x = x; x = (z);".toList
    (Parse.ofSource source).errors = [] ∧
      ∃ (d : Derivation) (v : Verdict), d.tokens = Parse.sentence source ∧
        (ofSource "" source).verdict = some v ∧ v.fatal = none ∧
          v.errors = (allOccurrences [] (d.map Prod.fst)).filterMap Occurrence.report? ∧
            v.symbols.symbols = firsts (declarations (d.map Prod.fst)) := by
  intro source
  have h : (Parse.ofSource source).errors = [] := by decide +kernel
  have hverdict : (ofSource "" source).verdict.map Verdict.fatal = some none := by decide +kernel
  obtain ⟨d, v, htokens, hv, -, herrors, reached, rest, hsplit, hsymbols, hrest, -⟩ :=
    diagnosis_of_source h
  rw [hv] at hverdict
  have hfatal : v.fatal = none := Option.some.inj hverdict
  rw [hrest hfatal, List.append_nil] at hsplit
  exact ⟨h, d, v, htokens, hv, hfatal, herrors hfatal, hsplit ▸ hsymbols⟩

end Report

end ScalarLang
