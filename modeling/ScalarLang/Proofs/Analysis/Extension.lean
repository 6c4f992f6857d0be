import ScalarLang.Proofs.Analysis.Transition
import ScalarLang.Verdict

/-!
# More statements extend the analysis

Statements that are added at the end of a program do not change what analysis says of those before
them. If these end the analysis it has ended; otherwise it goes on where it stood, and variables,
diagnostics and statements are only added.

* `symbols_prefix_statement`, `symbols_prefix_run`: no variable is removed or moved, not even by a
  statement in which the analysis ends.
* `run_append_of_error`, `run_append_of_ok`: the analysis of a list of statements in two parts.
* `Verdict.extends_of_append`: what this says of the verdicts.
-/

namespace ScalarLang

namespace Analysis

/-! ## Variables are only added -/

/-- The name of a declaration is entered behind all others, if it is entered. -/
theorem symbols_prefix_enter (s : State) (name : String) (type : ScalarType)
    (position : Option Position) :
    s.symbols.symbols <+: (s.enter name type position).symbols.symbols := by
  by_cases h : s.symbols.find? name = none
  · rw [State.symbols_enter_of_new h]
    exact List.prefix_append _ _
  · rw [State.enter_eq_self h]

/-- A statement keeps the variables that there are, also if the analysis ends in it. -/
theorem symbols_prefix_statement (s : State) (t : Tree) :
    s.symbols.symbols <+: (statement s t).state.symbols.symbols := by
  have htransition := transition_statement s t
  generalize statement s t = step at htransition ⊢
  cases htransition with
  | @declaration name type position value hdeclares =>
    -- the name is entered before the value is analysed, and storing leaves the table as it is
    have hstate : (declaration s type name position value).state.symbols
        = (s.enter name type position).symbols := by
      rw [declaration_eq]
      split
      · rfl
      · split_ifs <;> rfl
    rw [hstate]
    exact symbols_prefix_enter s name type position
  | @assignment name position value hassigns =>
    have hstate : (assignment s name position value).state.symbols = s.symbols := by
      rw [assignment_eq]
      split
      · rfl
      · split <;> rfl
    rw [hstate]
  | expression | stop | malformed | missingNode => exact List.prefix_rfl

/-- So does a list of statements. -/
theorem symbols_prefix_run (s : State) (ts : List Tree) :
    s.symbols.symbols <+: (run s ts).state.symbols.symbols := by
  induction ts generalizing s with
  | nil => exact List.prefix_rfl
  | cons t ts ih =>
    have hstep := symbols_prefix_statement s t
    unfold run
    cases hstatement : statement s t with
    | halt s' reason =>
      rw [hstatement] at hstep
      exact hstep
    | next s' e diagnostics =>
      rw [hstatement] at hstep
      exact hstep.trans (ih s')

/-! ## Analysis in two parts -/

/-- Puts the analysis of several statements in front. -/
def Run.prepend (statements : List Expr) (diagnostics : List Diagnostic) (r : Run) : Run :=
  { r with result := r.result.map fun (later, rest) => (statements ++ later, diagnostics ++ rest) }

/-- Nothing is put in front. -/
theorem Run.prepend_nil (r : Run) : r.prepend [] [] = r := by
  rcases r with ⟨s, reason | ⟨later, rest⟩⟩ <;> rfl

/-- The statements that are put in front may be split behind the first. -/
theorem Run.cons_prepend (r : Run) (e : Expr) (statements : List Expr)
    (first diagnostics : List Diagnostic) :
    (r.prepend statements diagnostics).cons e first
      = r.prepend (e :: statements) (first ++ diagnostics) := by
  rcases r with ⟨s, reason | ⟨later, rest⟩⟩
  · rfl
  · simp [Run.cons, Run.prepend, Except.map]

variable {s : State} {xs : List Tree}

/-- If the analysis of the first statements ends early, it ends so whatever follows them. -/
theorem run_append_of_error {reason : Halt} (h : (run s xs).result = .error reason)
    (ys : List Tree) : run s (xs ++ ys) = run s xs := by
  induction xs generalizing s with
  | nil => cases h
  | cons t ts ih =>
    rw [List.cons_append, run, run]
    rw [run] at h
    cases hstep : statement s t with
    | halt s' reason' => rfl
    | next s' e diagnostics =>
      rw [hstep] at h
      have hrest : (run s' ts).result = .error reason := Run.cons_eq_error_iff.1 h
      simp only [ih hrest]

/-- If the first statements are analysed to their end, the analysis goes on from what is known
then. -/
theorem run_append_of_ok {es : List Expr} {diagnostics : List Diagnostic}
    (h : (run s xs).result = .ok (es, diagnostics)) (ys : List Tree) :
    run s (xs ++ ys) = (run (run s xs).state ys).prepend es diagnostics := by
  induction xs generalizing s es diagnostics with
  | nil =>
    cases h
    exact (Run.prepend_nil _).symm
  | cons t ts ih =>
    obtain ⟨s', e, first, later, rest, hstep, hrest, hstate, rfl, rfl⟩ :=
      exists_of_run_cons_eq_ok h
    rw [hstate, ← Run.cons_prepend, ← ih hrest, List.cons_append, run, hstep]

end Analysis

/-! ## Verdicts -/

namespace Verdict

/-- How the verdict `w` on a program is related to the verdict `v` on its first statements. -/
structure Extends (v w : Verdict) : Prop where
  /-- What is rejected for a fatal reason is so whatever follows. -/
  fatal : v.fatal ≠ none → w = v
  symbols : v.symbols.symbols <+: w.symbols.symbols
  /-- A fatal reason that follows hides the errors before it. -/
  errors : w.fatal = none → v.errors <+: w.errors
  accepted : w.rejected = false → v.rejected = false ∧
    ∃ p q, v.program = some p ∧ w.program = some q ∧ p.statements <+: q.statements

variable {table table' : SymbolTable} {diagnostic : Diagnostic} {es : List Expr}
  {errors : List Diagnostic}

/-- A fatal verdict extends itself. -/
theorem extends_ofFatal_self : (ofFatal diagnostic table).Extends (ofFatal diagnostic table) where
  fatal := fun _ => rfl
  symbols := List.prefix_rfl
  errors := fun _ => List.prefix_rfl
  accepted := fun h => by simp [ofFatal, rejected] at h

@[simp] theorem fatal_ofStatements : (ofStatements es errors table).fatal = none := by
  unfold ofStatements
  split <;> rfl

@[simp] theorem errors_ofStatements : (ofStatements es errors table).errors = errors := by
  unfold ofStatements
  cases errors <;> rfl

@[simp] theorem symbols_ofStatements : (ofStatements es errors table).symbols = table := by
  unfold ofStatements
  split <;> rfl

/-- A program with a fatal reason extends the statements before that reason. -/
theorem extends_ofFatal (h : table.symbols <+: table'.symbols) :
    (ofStatements es errors table).Extends (ofFatal diagnostic table') where
  fatal := by simp
  symbols := by simpa [ofFatal] using h
  errors := fun h => by simp [ofFatal] at h
  accepted := fun h => by simp [ofFatal, rejected] at h

/-- A program that is analysed to its end extends its first statements. -/
theorem extends_ofStatements (h : table.symbols <+: table'.symbols) (later : List Expr)
    (rest : List Diagnostic) :
    (ofStatements es errors table).Extends
      (ofStatements (es ++ later) (errors ++ rest) table') where
  fatal := by simp
  symbols := by simpa using h
  errors := fun _ => by simp
  accepted := by
    intro haccepted
    obtain ⟨rfl, rfl⟩ : errors = [] ∧ rest = [] := by simpa [rejected] using haccepted
    exact ⟨by simp [rejected], ⟨es⟩, ⟨es ++ later⟩, rfl, rfl, List.prefix_append _ _⟩

/-- Analysis of a program extends that of its first statements, whatever trees the statements are.
If these are rejected for a fatal reason then the verdict on the program is the same, and lists
neither errors nor statements. Whenever there is a verdict on the program, there is one on the first
statements and it is extended: the variables come first among those of the program, so do the errors
unless the program has a fatal reason, and if the program is accepted the first statements are too
and come first in it. -/
theorem extends_of_append (xs ys : List Tree) (text text' : String)
    (position position' : Option Position) :
    (∀ v, ofTree? (.node .program text position xs) = some v → v.fatal ≠ none →
        ofTree? (.node .program text' position' (xs ++ ys)) = some v ∧
          v.errors = [] ∧ v.program = none) ∧
      ∀ w, ofTree? (.node .program text' position' (xs ++ ys)) = some w →
        ∃ v, ofTree? (.node .program text position xs) = some v ∧ v.Extends w := by
  unfold ofTree?
  cases hrun : (Analysis.run .initial xs).result with
  | error reason =>
    simp only [Analysis.run_append_of_error hrun, hrun]
    cases reason with
    | fatal diagnostic =>
      refine ⟨?_, ?_⟩
      · rintro v ⟨⟩ -
        exact ⟨rfl, rfl, rfl⟩
      · rintro w ⟨⟩
        exact ⟨_, rfl, extends_ofFatal_self⟩
    | missingNode => simp
  | ok result =>
    obtain ⟨es, errors⟩ := result
    simp only [Analysis.run_append_of_ok hrun, hrun]
    have hsymbols := Analysis.symbols_prefix_run (Analysis.run .initial xs).state ys
    refine ⟨?_, ?_⟩
    · rintro v ⟨⟩ hfatal
      exact absurd fatal_ofStatements hfatal
    · intro w hw
      refine ⟨_, rfl, ?_⟩
      rcases hlater : (Analysis.run (Analysis.run .initial xs).state ys).result with
        (diagnostic | _) | ⟨later, rest⟩
      · simp only [Analysis.Run.prepend, hlater, Except.map, Option.some.injEq] at hw
        exact hw ▸ extends_ofFatal hsymbols
      · simp only [Analysis.Run.prepend, hlater, Except.map, reduceCtorEq] at hw
      · simp only [Analysis.Run.prepend, hlater, Except.map, Option.some.injEq] at hw
        exact hw ▸ extends_ofStatements hsymbols later rest

/-- A program of a declaration and an assignment extends the declaration. Without the declaration
the assignment is rejected for a fatal reason, whatever follows it. -/
theorem extends_of_append_sample :
    let declaration : Tree := .node .declaration "" none
      [.leaf .token "bool" none, .leaf .token "b" none, .leaf .boolean "true" none]
    let assignment : Tree := .node .assignment "" none [.leaf .token "b" none, .leaf .var "b" none]
    (∃ v w, ofTree? (.node .program "" none [declaration]) = some v ∧
        ofTree? (.node .program "" none ([declaration] ++ [assignment])) = some w ∧
          w.rejected = false ∧ v.Extends w) ∧
      ∃ v, ofTree? (.node .program "" none [assignment]) = some v ∧ v.fatal ≠ none ∧
        ofTree? (.node .program "" none ([assignment] ++ [.missing])) = some v := by
  intro declaration assignment
  refine ⟨?_, ?_⟩
  · obtain ⟨w, hw, haccepted⟩ :
        ∃ w, ofTree? (.node .program "" none ([declaration] ++ [assignment])) = some w ∧
          w.rejected = false := ⟨_, rfl, by decide +kernel⟩
    obtain ⟨v, hv, hextends⟩ :=
      (extends_of_append [declaration] [assignment] "" "" none none).2 w hw
    exact ⟨v, w, hv, hw, haccepted, hextends⟩
  · obtain ⟨v, hv, hfatal⟩ :
        ∃ v, ofTree? (.node .program "" none [assignment]) = some v ∧ v.fatal ≠ none :=
      ⟨_, rfl, by decide +kernel⟩
    have happend := (extends_of_append [assignment] [.missing] "" "" none none).1 v hv hfatal
    exact ⟨v, hv, hfatal, happend.1⟩

end Verdict

end ScalarLang
