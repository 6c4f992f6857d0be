import ScalarLang.Proofs.Analysis.Violation
import ScalarLang.Proofs.Source.Sentence

/-!
# When a source is rejected for one fatal reason

Analysis goes from statement to statement and ends at the first one that violates a rule. The
statements before it lead to the state in which it is analysed (`Leads`), and the names that are
declared there are those that the statements before it declare.

* `FirstViolation before ts d`: `d` comes first in the first statement of `ts` that has a violation.
* `halt?_run_iff`: where the analysis of a list of statements ends.
* `fatal_iff_first_violation`: the fatal diagnostic of a source.
-/

namespace ScalarLang

namespace Analysis

open ScalarLang.Grammar ScalarLang.Lexeme

/-! ## Lists of statements -/

/-- Analysing `before` leads to the state `s`, from which the analysis goes on. -/
def Leads (before : List Tree) (s : State) : Prop :=
  ∀ rest, (run .initial (before ++ rest)).state = (run s rest).state ∧
    halt? (run .initial (before ++ rest)).result = halt? (run s rest).result

/-- No statement leads to the initial state. -/
theorem leads_nil : Leads [] .initial := fun _ => ⟨rfl, rfl⟩

/-- What statements lead to is known after them. -/
theorem Leads.known_eq {before : List Tree} {s : State} (h : Leads before s) :
    known before = s := by
  have hstate := (h []).1
  rwa [List.append_nil] at hstate

/-- A statement in front does not change where the others end. -/
theorem halt?_cons (e : Expr) (diagnostics : List Diagnostic) (r : Run) :
    halt? (r.cons e diagnostics).result = halt? r.result := by
  rw [Run.cons]
  cases r.result <;> rfl

/-- One more statement leads on. -/
theorem Leads.append {before : List Tree} {s s' : State} {t : Tree} {e : Expr}
    {diagnostics : List Diagnostic} (h : Leads before s)
    (ht : statement s t = .next s' e diagnostics) : Leads (before ++ [t]) s' := by
  intro rest
  have hrun : run s (t :: rest) = (run s' rest).cons e diagnostics := by rw [run, ht]
  obtain ⟨hstate, hhalt⟩ := h (t :: rest)
  rw [hrun] at hstate hhalt
  rw [List.append_assoc, List.singleton_append]
  exact ⟨hstate, hhalt.trans (halt?_cons e diagnostics _)⟩

/-- After the statements `before`, the first of `ts` that violates something violates
`diagnostic` first. -/
def FirstViolation (before ts : List Tree) (diagnostic : Diagnostic) : Prop :=
  ∃ pre t post, ts = pre ++ t :: post ∧
    (∀ earlier u later, pre = earlier ++ u :: later → violations (before ++ earlier) u = []) ∧
      (violations (before ++ pre) t).head? = some diagnostic

section FirstViolation

variable {before ts : List Tree} {t : Tree} {diagnostic : Diagnostic}

/-- A statement with a violation is the first one. -/
theorem firstViolation_cons_of_ne_nil (h : violations before t ≠ []) :
    FirstViolation before (t :: ts) diagnostic ↔
      (violations before t).head? = some diagnostic := by
  constructor
  · rintro ⟨pre, u, post, hsplit, hclean, hhead⟩
    cases pre with
    | nil =>
      obtain ⟨rfl, -⟩ := List.cons.inj hsplit
      rwa [List.append_nil] at hhead
    | cons x pre =>
      obtain ⟨rfl, -⟩ := List.cons.inj hsplit
      -- `t` would come before the first violation, but has one itself
      have hnil := hclean [] t pre rfl
      rw [List.append_nil] at hnil
      exact absurd hnil h
  · intro hhead
    refine ⟨[], t, ts, rfl, fun earlier u later hsplit => ?_, by rwa [List.append_nil]⟩
    cases earlier <;> cases hsplit

/-- A statement without violations is passed over. -/
theorem firstViolation_cons_of_nil (h : violations before t = []) :
    FirstViolation before (t :: ts) diagnostic ↔ FirstViolation (before ++ [t]) ts diagnostic := by
  have happend (us : List Tree) : before ++ t :: us = before ++ [t] ++ us := by simp
  constructor
  · rintro ⟨pre, u, post, hsplit, hclean, hhead⟩
    cases pre with
    | nil =>
      obtain ⟨rfl, -⟩ := List.cons.inj hsplit
      rw [List.append_nil, h] at hhead
      cases hhead
    | cons x pre =>
      obtain ⟨rfl, rfl⟩ := List.cons.inj hsplit
      refine ⟨pre, u, post, rfl, fun earlier w later hpre => ?_, happend pre ▸ hhead⟩
      exact happend earlier ▸ hclean (t :: earlier) w later (by rw [hpre, List.cons_append])
  · rintro ⟨pre, u, post, rfl, hclean, hhead⟩
    refine ⟨t :: pre, u, post, rfl, fun earlier w later hpre => ?_, (happend pre).symm ▸ hhead⟩
    cases earlier with
    | nil =>
      obtain ⟨rfl, -⟩ := List.cons.inj hpre
      rwa [List.append_nil]
    | cons x earlier =>
      obtain ⟨rfl, rfl⟩ := List.cons.inj hpre
      exact (happend earlier).symm ▸ hclean earlier w later rfl

end FirstViolation

/-- The analysis of a program ends at the first violation of its first statement that has one. -/
theorem halt?_run_iff (sts : List Statement)
    (hspelled : ∀ d ∈ sts, ∀ t ∈ d.tokens, Spelled t.kind t.text.toList) {before : List Tree}
    {s : State} (hleads : Leads before s)
    (hnames : ∀ name, (s.symbols.typeOf? name).isSome = true ↔
      name ∈ before.filterMap declaredName?) (reason : Halt) :
    halt? (run s (sts.map Statement.tree)).result = some reason ↔
      ∃ diagnostic, reason = .fatal diagnostic ∧
        FirstViolation before (sts.map Statement.tree) diagnostic := by
  -- along the statements; `before` grows by each one that is analysed to its end
  induction sts generalizing before s with
  | nil => simp [run, halt?, FirstViolation]
  | cons d sts ih =>
    have hsts : ∀ d ∈ sts, ∀ t ∈ d.tokens, Spelled t.kind t.text.toList :=
      fun d hmem => hspelled d (List.mem_cons_of_mem _ hmem)
    have hhalt := halt?_statement d (hspelled d List.mem_cons_self) (hleads.known_eq.symm ▸ hnames)
    rw [hleads.known_eq] at hhalt
    rw [List.map_cons, run]
    cases hstep : statement s d.tree with
    | halt s' r =>
      rw [hstep] at hhalt
      obtain ⟨first, hfirst, hr⟩ := Option.map_eq_some_iff.1 hhalt.symm
      have hne : violations before d.tree ≠ [] := fun hnil => by simp [hnil] at hfirst
      simp only [firstViolation_cons_of_ne_nil hne, hfirst, Option.some.injEq, halt?, ← hr]
      constructor
      · exact fun h => ⟨first, h.symm, rfl⟩
      · rintro ⟨_, h, hd⟩
        exact hd ▸ h.symm
    | next s' e diagnostics =>
      rw [hstep] at hhalt
      have hnil : violations before d.tree = [] := by
        simpa [Step.halt?] using hhalt.symm
      simp only [firstViolation_cons_of_nil hnil]
      rw [halt?_cons]
      -- the invariant on the declared names is kept by the statement
      refine ih hsts (hleads.append hstep) fun name => ?_
      rw [isSome_typeOf?_of_statement d hstep, hnames, List.filterMap_append, List.mem_append]
      simp

end Analysis

/-! ## Sources -/

/-- The fatal diagnostic of a tree is the reason for which its analysis ended. -/
theorem Verdict.exists_ofTree?_fatal (position : Option Position) {statements : List Tree}
    (h : Analysis.halt? (Analysis.run .initial statements).result ≠ some .missingNode) :
    ∃ v, Verdict.ofTree? (.node .program "" position statements) = some v ∧
      ∀ diagnostic, v.fatal = some diagnostic ↔
        Analysis.halt? (Analysis.run .initial statements).result = some (.fatal diagnostic) := by
  rw [Verdict.ofTree?]
  generalize Analysis.run .initial statements = run at h ⊢
  rcases run with ⟨s, (first | _) | ⟨es, errors⟩⟩
  · exact ⟨_, rfl, fun diagnostic => by simp [Verdict.ofFatal, Analysis.halt?]⟩
  · exact absurd rfl h
  · refine ⟨_, rfl, fun diagnostic => ?_⟩
    simp only [Verdict.ofStatements, Analysis.halt?]
    split_ifs <;> simp

namespace Report

open ScalarLang.Analysis

/-- A source without syntax errors is rejected for a fatal reason exactly if one of its statements
violates a rule and no statement before it does, and the reason is the first violation of that
statement in the order of evaluation. -/
theorem fatal_iff_first_violation {filename : String} {source : List UInt8}
    (h : (Parse.ofSource source).errors = []) :
    ∃ v, (ofSource filename source).verdict = some v ∧
      ∀ diagnostic, v.fatal = some diagnostic ↔
        ∃ before t after, (Parse.ofSource source).statements = before ++ t :: after ∧
          (∀ earlier u later, before = earlier ++ u :: later → violations earlier u = []) ∧
            (violations before t).head? = some diagnostic := by
  obtain ⟨-, d, htokens, hstatements⟩ := Parse.ofSource_iff_derivation.1 ⟨h, rfl⟩
  have hspelled : ∀ statement ∈ d.map Prod.fst, ∀ t ∈ statement.tokens,
      Lexeme.Spelled t.kind t.text.toList := by
    intro statement hmem t ht
    obtain ⟨pair, hpair, rfl⟩ := List.mem_map.1 hmem
    have hmem : t ∈ d.tokens := List.mem_flatMap.2 ⟨pair, hpair, List.mem_append_left _ ht⟩
    exact Parse.spelled_of_tokens_eq htokens t hmem
  have htrees :
      (d.map Prod.fst).map Grammar.Statement.tree = (Parse.ofSource source).statements := by
    rw [← hstatements, List.map_map]
    rfl
  have hhalt := halt?_run_iff (d.map Prod.fst) hspelled leads_nil (fun name => by
    simp [State.initial, SymbolTable.typeOf?, SymbolTable.find?, SymbolTable.empty])
  rw [htrees] at hhalt
  -- the tree of a derivation has no missing node, so the analysis gives a verdict
  have hmissing : halt? (run .initial (Parse.ofSource source).statements).result
      ≠ some .missingNode := by
    intro hmissing
    obtain ⟨_, ⟨⟩, -⟩ := (hhalt _).1 hmissing
  obtain ⟨v, hv, hfatal⟩ := Verdict.exists_ofTree?_fatal (some Position.start) hmissing
  refine ⟨v, ?_, fun diagnostic => (hfatal diagnostic).trans ((hhalt _).trans ?_)⟩
  · rw [ofSource_of_errors_eq_nil h]
    exact hv
  · constructor
    · rintro ⟨_, ⟨⟩, hfirst⟩
      exact hfirst
    · exact fun hfirst => ⟨diagnostic, rfl, hfirst⟩

/-- A source whose second statement has two violations. -/
theorem fatal_iff_first_violation_sample :
    let source := Utf8.encode "int a = 1; a = !(- -a) + - -2; b = 3;".toList
    (Parse.ofSource source).errors = [] ∧
      ∃ v, (ofSource "" source).verdict = some v ∧
        ∀ diagnostic, v.fatal = some diagnostic ↔
          ∃ before t after, (Parse.ofSource source).statements = before ++ t :: after ∧
            (∀ earlier u later, before = earlier ++ u :: later → violations earlier u = []) ∧
              (violations before t).head? = some diagnostic := by
  intro source
  have h : (Parse.ofSource source).errors = [] := by decide +kernel
  exact ⟨h, fatal_iff_first_violation h⟩

end Report

end ScalarLang
