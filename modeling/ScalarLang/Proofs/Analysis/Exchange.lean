import ScalarLang.Proofs.Analysis.Extension
import ScalarLang.Proofs.Analysis.Frame
import ScalarLang.Proofs.Analysis.Violation

/-!
# Independent statements can be exchanged

Two statements without a common name have effects without a common name, so neither sees the effect of
the other. Analysed in the other order they have the same results, and they lead to states that know
the same of every name: only the order of the declared variables differs. What follows them is then
analysed alike.

* `agreesAt_apply_apply`: effects without a common name can be exchanged.
* `exists_exchange_of_statements`: two statements without a common name.
* `exists_later_of_agreesAt`: a list of statements in two states that know the same.
* `Verdict.exchanged_of_disjoint`: what this says of the verdicts.
-/

namespace ScalarLang

namespace Analysis

variable {s s' : State} {ts xs ys : List Tree} {es : List Expr} {diagnostics : List Diagnostic}

/-! ## Two statements -/

/-- In which order two effects come about cannot be told if they have no name in common. -/
theorem agreesAt_apply_apply {first second : Effect}
    (h : ∀ name ∈ first.names, name ∉ second.names) (s : State) (name : String) :
    ((s.apply first).apply second).AgreesAt ((s.apply second).apply first) name := by
  by_cases hname : name ∈ first.names
  · -- only the first effect is about the name
    have hsecond := h name hname
    exact ((s.apply first).apply_agreesAt hsecond).trans ((s.apply_agreesAt hsecond).symm.apply first)
  · -- only the second can be
    have hfirst := (s.apply second).apply_agreesAt hname
    exact ((s.apply_agreesAt hname).apply second).trans hfirst.symm

/-- Two statements without a common name have the same results and effects in the other order. -/
theorem exists_exchange_of_statements {a b : Tree} (hdisjoint : ∀ name ∈ a.names, name ∉ b.names)
    {inner : State} {x y : Expr} {xDiagnostics yDiagnostics : List Diagnostic}
    (ha : statement s a = .next inner x xDiagnostics)
    (hb : statement inner b = .next s' y yDiagnostics) :
    ∃ first second : Effect, inner = s.apply first ∧ s' = inner.apply second ∧
      statement s b = .next (s.apply second) y yDiagnostics ∧
        statement (s.apply second) a = .next ((s.apply second).apply first) x xDiagnostics ∧
          ∀ name, s'.AgreesAt ((s.apply second).apply first) name := by
  obtain ⟨first, rfl, hfirst, hsame⟩ := exists_effect_of_statement ha
  obtain ⟨second, rfl, hsecond, hsame'⟩ := exists_effect_of_statement hb
  have hnames : ∀ name ∈ first.names, name ∉ second.names :=
    fun name hname hmem => hdisjoint name (hfirst name hname) (hsecond name hmem)
  refine ⟨first, second, rfl, rfl, hsame' s fun name hname => ?_, hsame _ fun name hname => ?_,
    agreesAt_apply_apply hnames s⟩
  · -- the second statement has no name that the first one is about
    exact s.apply_agreesAt fun hmem => hdisjoint name (hfirst name hmem) hname
  · exact (s.apply_agreesAt fun hmem => hdisjoint name hname (hsecond name hmem)).symm

/-! ## What follows -/

/-- States that know the same of every name cannot be told apart by statements: these have the same
results and declare the same variables. -/
theorem exists_later_of_agreesAt (h : ∀ name, s.AgreesAt s' name)
    (hrun : (run s ts).result = .ok (es, diagnostics)) :
    (run s' ts).result = .ok (es, diagnostics) ∧
      ∃ later, (run s ts).state.symbols.symbols = s.symbols.symbols ++ later ∧
        (run s' ts).state.symbols.symbols = s'.symbols.symbols ++ later := by
  induction ts generalizing s s' es diagnostics with
  | nil =>
    cases hrun
    exact ⟨rfl, [], (List.append_nil _).symm, (List.append_nil _).symm⟩
  | cons t ts ih =>
    obtain ⟨inner, e, first, rest, others, hstep, hrest, hstate, rfl, rfl⟩ :=
      exists_of_run_cons_eq_ok hrun
    obtain ⟨effect, rfl, -, hsame⟩ := exists_effect_of_statement hstep
    have hstep' := hsame s' fun name _ => h name
    obtain ⟨hresult, later, hsymbols, hsymbols'⟩ := ih (fun name => (h name).apply effect) hrest
    have hrun' : run s' (t :: ts) = (run (s'.apply effect) ts).cons e first := by rw [run, hstep']
    refine ⟨?_, effect.declared ++ later, ?_, ?_⟩
    · rw [hrun', Run.cons, hresult]
      rfl
    · rw [hstate, hsymbols]
      exact List.append_assoc _ _ _
    · rw [hrun']
      exact hsymbols'.trans (List.append_assoc _ _ _)

/-- A list of statements is analysed to its end if both parts of it are. -/
theorem exists_of_run_append_eq_ok (h : (run s (xs ++ ys)).result = .ok (es, diagnostics)) :
    ∃ earlier later reported others, (run s xs).result = .ok (earlier, reported) ∧
      (run (run s xs).state ys).result = .ok (later, others) ∧ es = earlier ++ later ∧
        diagnostics = reported ++ others := by
  cases hrun : (run s xs).result with
  | error reason =>
    rw [run_append_of_error hrun, hrun] at h
    cases h
  | ok result =>
    rw [run_append_of_ok hrun, Run.prepend] at h
    cases hlater : (run (run s xs).state ys).result with
    | error reason =>
      rw [hlater] at h
      cases h
    | ok rest =>
      rw [hlater] at h
      cases h
      exact ⟨_, _, _, _, rfl, rfl, rfl, rfl⟩

/-- Each statement that is analysed gives one expression. -/
theorem length_of_run (h : (run s ts).result = .ok (es, diagnostics)) :
    es.length = ts.length := by
  induction ts generalizing s es diagnostics with
  | nil =>
    cases h
    rfl
  | cons t ts ih =>
    obtain ⟨_, _, _, _, _, -, hrest, -, rfl, -⟩ := exists_of_run_cons_eq_ok h
    rw [List.length_cons, List.length_cons, ih hrest]

section Between

variable {before after : List Tree} {a b : Tree} {inner final : State} {x y : Expr}
  {earlier later : List Expr} {reported xDiagnostics yDiagnostics others : List Diagnostic}

/-- What is known behind some statements and one more. -/
theorem state_run_append_singleton (hbefore : (run s before).result = .ok (earlier, reported))
    (ha : statement (run s before).state a = .next inner x xDiagnostics) :
    (run s (before ++ [a])).state = inner := by
  rw [run_append_of_ok hbefore]
  simp only [run, ha]
  rfl

/-- What a list of statements comes to, by way of two neighbouring ones. -/
theorem run_between (hbefore : (run s before).result = .ok (earlier, reported))
    (ha : statement (run s before).state a = .next inner x xDiagnostics)
    (hb : statement inner b = .next final y yDiagnostics)
    (hafter : (run final after).result = .ok (later, others)) :
    (run s (before ++ [a, b] ++ after)).state = (run final after).state ∧
      (run s (before ++ [a, b] ++ after)).result
        = .ok (earlier ++ [x, y] ++ later, reported ++ (xDiagnostics ++ yDiagnostics) ++ others) := by
  have hpair : run (run s before).state (a :: b :: after)
      = ((run final after).cons y yDiagnostics).cons x xDiagnostics := by
    simp only [run, ha, hb]
  rw [List.append_assoc, List.cons_append, List.singleton_append, run_append_of_ok hbefore, hpair]
  simp [Run.prepend, Run.cons, hafter, Except.map]

/-- A list of statements that is analysed to its end, cut at two neighbouring ones. -/
theorem exists_between_of_run {result : List Expr × List Diagnostic}
    (h : (run s (before ++ [a, b] ++ after)).result = .ok result) :
    ∃ inner final x y earlier later reported xDiagnostics yDiagnostics others,
      (run s before).result = .ok (earlier, reported) ∧
        statement (run s before).state a = .next inner x xDiagnostics ∧
          statement inner b = .next final y yDiagnostics ∧
            (run final after).result = .ok (later, others) := by
  rw [List.append_assoc, List.cons_append, List.singleton_append] at h
  obtain ⟨earlier, _, reported, _, hbefore, hpair, -⟩ := exists_of_run_append_eq_ok h
  obtain ⟨inner, x, xDiagnostics, _, _, ha, hrest, -⟩ := exists_of_run_cons_eq_ok hpair
  obtain ⟨final, y, yDiagnostics, later, others, hb, hafter, -⟩ := exists_of_run_cons_eq_ok hrest
  exact ⟨inner, final, x, y, earlier, later, reported, xDiagnostics, yDiagnostics, others, hbefore,
    ha, hb, hafter⟩

end Between

end Analysis

/-! ## Verdicts -/

namespace Verdict

open Analysis

/-- How the verdict `w` on a program is related to the verdict `v` on the program in which the
statements `a` and `b` behind the statements `before` are exchanged. -/
structure Exchanged (before : List Tree) (a b : Tree) (v w : Verdict) : Prop where
  fatal : w.fatal = none
  errors : w.errors.Perm v.errors
  /-- The variables that the two statements declare behind the others are exchanged. -/
  symbols : ∃ ofA ofB later,
    (known (before ++ [a])).symbols.symbols = (known before).symbols.symbols ++ ofA ∧
      (known (before ++ [b])).symbols.symbols = (known before).symbols.symbols ++ ofB ∧
        v.symbols.symbols = (known before).symbols.symbols ++ ofA ++ ofB ++ later ∧
          w.symbols.symbols = (known before).symbols.symbols ++ ofB ++ ofA ++ later
  accepted : v.rejected = false → w.rejected = false ∧
    ∃ earlier x y later, earlier.length = before.length ∧
      v.program = some ⟨earlier ++ [x, y] ++ later⟩ ∧ w.program = some ⟨earlier ++ [y, x] ++ later⟩

variable {text : String} {position : Option Position} {ts : List Tree}

/-- A tree without a fatal reason is analysed to its end. -/
theorem exists_run_of_fatal_eq_none {v : Verdict}
    (hv : ofTree? (.node .program text position ts) = some v) (hfatal : v.fatal = none) :
    ∃ es errors, (Analysis.run .initial ts).result = .ok (es, errors) ∧
      v = ofStatements es errors (Analysis.run .initial ts).state.symbols := by
  cases outcome_of_ofTree? hv with
  | completed hrun => exact ⟨_, _, hrun, rfl⟩
  | stopped | malformed => cases hfatal

/-- The verdict on a tree that is analysed to its end. -/
theorem ofTree?_of_run {es : List Expr} {errors : List Diagnostic}
    (h : (Analysis.run .initial ts).result = .ok (es, errors)) :
    ofTree? (.node .program text position ts)
      = some (ofStatements es errors (Analysis.run .initial ts).state.symbols) := by
  rw [ofTree?]
  simp only [h]

theorem rejected_ofStatements_eq_false_iff {es : List Expr} {errors : List Diagnostic}
    {table : SymbolTable} : (ofStatements es errors table).rejected = false ↔ errors = [] := by
  simp [rejected]

/-- Statements without a common name can be exchanged. If a program is analysed without a fatal
reason, so is the program in which two neighbouring statements that have no name in common change
places. It has the same errors in some order, and the same variables but that those of the two
statements have changed places; if the one program is accepted so is the other, and the two
statements have changed places in it. -/
theorem exchanged_of_disjoint {before after : List Tree} {a b : Tree}
    (hdisjoint : ∀ name ∈ a.names, name ∉ b.names) {v : Verdict}
    (hv : ofTree? (.node .program text position (before ++ [a, b] ++ after)) = some v)
    (hfatal : v.fatal = none) (text' : String) (position' : Option Position) :
    ∃ w, ofTree? (.node .program text' position' (before ++ [b, a] ++ after)) = some w ∧
      Exchanged before a b v w := by
  obtain ⟨es, errors, hrun, rfl⟩ := exists_run_of_fatal_eq_none hv hfatal
  obtain ⟨inner, final, x, y, earlier, later, reported, xDiagnostics, yDiagnostics, others, hbefore,
    ha, hb, hafter⟩ := exists_between_of_run hrun
  obtain ⟨first, second, rfl, rfl, hb', ha', hagrees⟩ :=
    exists_exchange_of_statements hdisjoint ha hb
  obtain ⟨hafter', entries, hsymbols, hsymbols'⟩ := exists_later_of_agreesAt hagrees hafter
  -- the two runs differ in the order of the two results and effects
  obtain ⟨hstate, hresult⟩ := run_between hbefore ha hb hafter
  obtain ⟨hstate', hresult'⟩ := run_between hbefore hb' ha' hafter'
  obtain ⟨rfl, rfl⟩ := Prod.mk.inj (Except.ok.inj (hrun.symm.trans hresult))
  refine ⟨_, ofTree?_of_run hresult', ?_⟩
  constructor
  case fatal => simp
  case errors =>
    simp only [errors_ofStatements]
    exact (List.perm_append_comm.append_left reported).append_right others
  case symbols =>
    refine ⟨first.declared, second.declared, entries, ?_, ?_, ?_, ?_⟩
    · exact congrArg (·.symbols.symbols) (state_run_append_singleton hbefore ha)
    · exact congrArg (·.symbols.symbols) (state_run_append_singleton hbefore hb')
    · rw [symbols_ofStatements, hstate, hsymbols]
      rfl
    · rw [symbols_ofStatements, hstate', hsymbols']
      rfl
  case accepted =>
    intro haccepted
    have hnil := rejected_ofStatements_eq_false_iff.1 haccepted
    obtain ⟨rfl, rfl, rfl, rfl⟩ :
        reported = [] ∧ xDiagnostics = [] ∧ yDiagnostics = [] ∧ others = [] := by simpa using hnil
    exact ⟨by simp [rejected], earlier, x, y, later, length_of_run hbefore, rfl, rfl⟩

/-- Behind `int x = 1;` and before `y = x;` the statements `bool x = true;` and `float y = z;` are
exchanged. Each of them reports an error. -/
theorem exchanged_of_disjoint_sample :
    let declared : Tree := .node .declaration "" none
      [.leaf .token "int" none, .leaf .token "x" none, .leaf .number "1" none]
    let a : Tree := .node .declaration "" none
      [.leaf .token "bool" none, .leaf .token "x" none, .leaf .boolean "true" none]
    let b : Tree := .node .declaration "" none
      [.leaf .token "float" none, .leaf .token "y" none, .leaf .var "z" none]
    let copied : Tree := .node .assignment "" none [.leaf .token "y" none, .leaf .var "x" none]
    (∀ name ∈ a.names, name ∉ b.names) ∧
      ∃ v w, ofTree? (.node .program "" none ([declared] ++ [a, b] ++ [copied])) = some v ∧
        v.fatal = none ∧ v.errors.length = 2 ∧
          ofTree? (.node .program "" none ([declared] ++ [b, a] ++ [copied])) = some w ∧
            Exchanged [declared] a b v w := by
  intro declared a b copied
  have hdisjoint : ∀ name ∈ a.names, name ∉ b.names := by decide
  have hverdict : (ofTree? (.node .program "" none ([declared] ++ [a, b] ++ [copied]))).map
      (fun v => (v.fatal, v.errors.length)) = some (none, 2) := by decide +kernel
  obtain ⟨v, hv, hfacts⟩ := Option.map_eq_some_iff.1 hverdict
  obtain ⟨hfatal, hlength⟩ := Prod.mk.inj hfacts
  obtain ⟨w, hw, hexchanged⟩ := exchanged_of_disjoint hdisjoint hv hfatal "" none
  exact ⟨hdisjoint, v, w, hv, hfatal, hlength, hw, hexchanged⟩

end Verdict

end ScalarLang
