import ScalarLang.Proofs.Syntax.Parsing
import ScalarLang.Proofs.Token.Spelling
import ScalarLang.Report

/-!
# Sources without syntax errors

A source without syntax errors is lexed to its end, and its tokens are a sentence of the grammar,
each spelled as its kind says. What follows about such sources is proved by induction on the
derivation of the sentence.
-/

namespace ScalarLang

namespace Parse

open ScalarLang.Grammar ScalarLang.Parser

/-- A lexical error is always reported. -/
theorem errors_run_append_error {phase : Phase} {ts : List Token} {t : Token}
    (ht : t.kind = .error) (hts : ∀ u ∈ ts, u.isTerminal = false) :
    (run phase (ts ++ [t])).errors ≠ [] := by
  induction ts generalizing phase with
  | nil => simp [run, Token.isComment, Token.isTerminal, Phase.terminalError?, ht, errors]
  | cons u ts ih =>
    have hu := hts u List.mem_cons_self
    have hts' : ∀ u ∈ ts, u.isTerminal = false := fun u hmem => hts u (List.mem_cons_of_mem _ hmem)
    by_cases hcomment : u.isComment = true
    · rw [List.cons_append, run, if_pos hcomment]
      exact ih hts'
    -- no token keeps the error from being reached, and one that is refused adds another
    have hsignificant : u.Significant := ⟨by simpa using hcomment, hu⟩
    rw [List.cons_append]
    cases hstep : phase.step u with
    | next phase' => exact run_cons_of_next hsignificant hstep _ ▸ ih hts'
    | complete statement => exact run_cons_of_complete hsignificant hstep _ ▸ ih hts'
    | refuse =>
      rw [run_cons_of_refuse hsignificant hstep, errors_cons_error]
      exact List.cons_ne_nil _ _

/-- The tokens of a source that are no comments. -/
def sentence (source : List UInt8) : List Token :=
  (Lexing.ofChars (Utf8.decode source)).tokens.filter (!·.isComment)

/-- The tokens of a source but comments are spelled as their kinds say. -/
theorem spelled_of_mem_sentence {source : List UInt8} {t : Token} (h : t ∈ sentence source) :
    Lexeme.Spelled t.kind t.text.toList := by
  obtain ⟨hmem, hcomment⟩ := List.mem_filter.1 h
  refine (Lexing.spelled_of_mem_scan hmem).resolve_left fun hkind => ?_
  simp [Token.isComment, hkind] at hcomment

/-- So are the tokens of its derivation. -/
theorem spelled_of_tokens_eq {source : List UInt8} {d : Derivation} (h : d.tokens = sentence source)
    (t : Token) (ht : t ∈ d.tokens) : Lexeme.Spelled t.kind t.text.toList :=
  spelled_of_mem_sentence (h ▸ ht)

/-- A source has no syntax errors exactly if it is lexed to its end and its tokens are a sentence,
and then its statements are those of the derivation. -/
theorem ofSource_iff_derivation {source : List UInt8} {trees : List Tree} :
    (ofSource source).errors = [] ∧ (ofSource source).statements = trees ↔
      (∃ position, (Lexing.ofChars (Utf8.decode source)).ending = .endOfInput position) ∧
        ∃ d : Derivation, d.tokens = sentence source ∧ d.statements = trees := by
  have hterminal : ∀ t ∈ (Lexing.ofChars (Utf8.decode source)).tokens, t.isTerminal = false :=
    fun t => Lexing.isTerminal_of_mem_scan
  rw [ofSource, ofTokens, Lexing.stream]
  -- a stream ends with the input or with a lexical error, and the latter is reported
  cases hending : (Lexing.ofChars (Utf8.decode source)).ending with
  | endOfInput position =>
    rw [run_iff_derivation hterminal (ends_endOfInput rfl [])]
    exact ⟨fun h => ⟨⟨position, rfl⟩, h⟩, fun h => h.2⟩
  | failure error position =>
    constructor
    · rintro ⟨herrors, -⟩
      exact absurd herrors (errors_run_append_error rfl hterminal)
    · rintro ⟨⟨_, ⟨⟩⟩, -⟩

/-- A source without syntax errors is the sentence of statements that are spelled as their kinds
say. -/
theorem exists_statements_of_ofSource {source : List UInt8} (h : (ofSource source).errors = []) :
    ∃ d : Derivation, d.tokens = sentence source ∧
      (ofSource source).statements = (d.map Prod.fst).map Statement.tree ∧
        ∀ statement ∈ d.map Prod.fst, ∀ t ∈ statement.tokens,
          Lexeme.Spelled t.kind t.text.toList := by
  obtain ⟨-, d, htokens, hstatements⟩ := ofSource_iff_derivation.1 ⟨h, rfl⟩
  refine ⟨d, htokens, ?_, fun statement hmem t ht => ?_⟩
  · rw [← hstatements, List.map_map]
    rfl
  · obtain ⟨pair, hpair, rfl⟩ := List.mem_map.1 hmem
    refine spelled_of_tokens_eq htokens t (List.mem_flatMap.2 ⟨pair, hpair, ?_⟩)
    exact List.mem_append_left _ ht

end Parse

/-- When a tree is accepted. -/
theorem Verdict.ofTree?_program_iff {position : Option Position} {statements : List Tree}
    {v : Verdict} {program : Program} :
    Verdict.ofTree? (.node .program "" position statements) = some v ∧ v.program = some program ↔
      ∃ s, Analysis.run .initial statements = ⟨s, .ok (program.statements, [])⟩ ∧
        v = ⟨some program, [], none, s.symbols⟩ := by
  rw [Verdict.ofTree?]
  generalize Analysis.run .initial statements = run
  rcases run with ⟨s, (diagnostic | _) | ⟨es, errors⟩⟩
  · simp only [Option.some.injEq, Analysis.Run.mk.injEq, reduceCtorEq, and_false, false_and,
      exists_false, iff_false, not_and]
    rintro rfl ⟨⟩
  · simp
  · cases errors with
    | nil =>
      simp only [Verdict.ofStatements, List.isEmpty_nil, if_true, Option.some.injEq]
      constructor
      · rintro ⟨rfl, ⟨⟩⟩
        exact ⟨s, rfl, rfl⟩
      · rintro ⟨_, ⟨⟩, rfl⟩
        exact ⟨rfl, rfl⟩
    | cons error errors =>
      simp only [Verdict.ofStatements, List.isEmpty_cons, Bool.false_eq_true, if_false,
        Option.some.injEq, Analysis.Run.mk.injEq, Except.ok.injEq, Prod.mk.injEq, reduceCtorEq,
        and_false, false_and, exists_false, iff_false, not_and]
      rintro rfl ⟨⟩

/-- A source without syntax errors is analysed. -/
theorem Report.ofSource_of_errors_eq_nil {source : List UInt8}
    (h : (Parse.ofSource source).errors = []) (filename : String) :
    Report.ofSource filename source
      = ⟨filename, [], Verdict.ofTree? (Parse.ofSource source).tree⟩ := by
  rw [Report.ofSource, if_pos (by rw [h]; rfl)]

/-- The syntax errors of a report are those of the parse. -/
theorem Report.syntaxErrors_ofSource (filename : String) (source : List UInt8) :
    (Report.ofSource filename source).syntaxErrors = (Parse.ofSource source).errors := by
  by_cases h : (Parse.ofSource source).errors = []
  · rw [Report.ofSource_of_errors_eq_nil h, h]
  · simp [Report.ofSource, h]

/-- When a source is accepted. -/
theorem Report.ofSource_program_iff {filename : String} {source : List UInt8} {v : Verdict}
    {program : Program} :
    (Report.ofSource filename source).verdict = some v ∧ v.program = some program ↔
      (Parse.ofSource source).errors = [] ∧
        ∃ s, Analysis.run .initial (Parse.ofSource source).statements
            = ⟨s, .ok (program.statements, [])⟩ ∧
          v = ⟨some program, [], none, s.symbols⟩ := by
  by_cases herrors : (Parse.ofSource source).errors = []
  · rw [Report.ofSource_of_errors_eq_nil herrors]
    simp only [herrors, true_and]
    exact Verdict.ofTree?_program_iff
  · simp [Report.ofSource, herrors]

/-- What an accepted source is the sentence of. -/
theorem Report.exists_derivation_of_ofSource {filename : String} {source : List UInt8} {v : Verdict}
    {program : Program} (hv : (Report.ofSource filename source).verdict = some v)
    (hprogram : v.program = some program) :
    ∃ (d : Grammar.Derivation) (position : Position) (s : Analysis.State),
      (Lexing.ofChars (Utf8.decode source)).ending = .endOfInput position ∧
        d.tokens = Parse.sentence source ∧
          Analysis.run .initial d.statements = ⟨s, .ok (program.statements, [])⟩ ∧
            v = ⟨some program, [], none, s.symbols⟩ := by
  obtain ⟨herrors, s, hrun, rfl⟩ := Report.ofSource_program_iff.1 ⟨hv, hprogram⟩
  obtain ⟨⟨position, hending⟩, d, htokens, hstatements⟩ :=
    Parse.ofSource_iff_derivation.1 ⟨herrors, rfl⟩
  exact ⟨d, position, s, hending, htokens, hstatements ▸ hrun, rfl⟩

end ScalarLang
