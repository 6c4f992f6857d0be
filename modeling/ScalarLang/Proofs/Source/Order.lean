import ScalarLang.Proofs.Analysis.Extension
import ScalarLang.Proofs.Source.Diagnosis
import ScalarLang.Proofs.Token.Placement

/-!
# Diagnostics come in the order of the source

Each token stands behind the one before it. What is reported of a source is reported token by token,
from left to right, and at most one thing for each token. So the positions of the syntax errors are
a sublist of those of the tokens, and so are the positions of the errors that analysis finds; the
order of the tokens is then the order of both. The module introduces:

* `Position.Before`: the order of positions, by line and then by column;
* `Precedes`: the same for positions that may be unknown;
* `ErrorAt t d`, `FatalAt t d`: the diagnostic `d` is about the token `t`.

The main steps are `precedes_scan` for tokens, `sublist_errors_run` for syntax errors,
`sublist_reports` for errors and `exists_fatalAt_of_run` for fatal reasons.
-/

namespace ScalarLang

/-! ## The order of positions -/

namespace Position

/-- `p` is on an earlier line than `q`, or further to the left on the same line. -/
def Before (p q : Position) : Prop :=
  p.line < q.line ∨ p.line = q.line ∧ p.column < q.column

theorem Before.trans {p q r : Position} (hpq : p.Before q) (hqr : q.Before r) : p.Before r := by
  unfold Before at *
  omega

/-- Every character moves on. -/
theorem before_advance (p : Position) (c : Char) : p.Before (p.advance c) := by
  unfold Before advance
  split_ifs
  · left
    show p.line < p.line + 1
    omega
  · right
    refine ⟨rfl, ?_⟩
    show p.column < p.column + 1
    omega

end Position

/-- Both positions are known, and the first one comes before the second one. -/
def Precedes : Option Position → Option Position → Prop
  | some p, some q => p.Before q
  | _, _ => False

/-! ## Tokens -/

namespace Lexing

/-- The tokens stand at or behind the place where lexing started, each behind the one before it. -/
theorem precedes_scan (skip : Nat) (p : Position) (cs : List Char) :
    ((scan skip p cs).stream.map (·.position)).Pairwise Precedes ∧
      ∀ t ∈ (scan skip p cs).stream, t.position = some p ∨ Precedes (some p) t.position := by
  -- what is behind the next character is behind the present one too
  have hlater {p : Position} {c : Char} {ts : List Token}
      (hts : ∀ t ∈ ts, t.position = some (p.advance c) ∨ Precedes (some (p.advance c)) t.position)
      (t : Token) (ht : t ∈ ts) : Precedes (some p) t.position := by
    have hstep := p.before_advance c
    rcases hts t ht with hposition | hposition
    · rw [hposition]
      exact hstep
    · cases hq : t.position with
      | none => simp [hq, Precedes] at hposition
      | some q =>
        rw [hq] at hposition
        exact hstep.trans hposition
  fun_induction scan skip p cs with
  | case1 skip p => exact ⟨List.pairwise_singleton _ _, by simp [stream, Ending.token]⟩
  | case2 p skip c cs ih => exact ⟨ih.1, fun t ht => .inr (hlater ih.2 t ht)⟩
  | case3 p c cs hblank ih => exact ⟨ih.1, fun t ht => .inr (hlater ih.2 t ht)⟩
  | case4 p c cs hblank l hread ih =>
    have hbehind := hlater ih.2
    refine ⟨List.pairwise_cons.2 ⟨?_, ih.1⟩, ?_⟩
    · intro position hposition
      obtain ⟨t, ht, rfl⟩ := List.mem_map.1 hposition
      exact hbehind t ht
    · intro t ht
      rcases List.mem_cons.1 ht with rfl | ht
      · exact .inl rfl
      · exact .inr (hbehind t ht)
  | case5 p c cs hblank e hread =>
    exact ⟨List.pairwise_singleton _ _, by simp [stream, Ending.token]⟩

/-- The tokens of a source stand one behind the other. -/
theorem precedes_stream (cs : List Char) :
    ((ofChars cs).stream.map (·.position)).Pairwise Precedes :=
  (precedes_scan 0 .start cs).1

end Lexing

/-! ## Syntax errors -/

namespace Parser.Phase

/-- A token that is refused is reported where it stands. -/
theorem position_refusal (phase : Phase) {t : Token} (ht : t.position ≠ none) :
    some (phase.refusal t).position = t.position := by
  obtain ⟨p, hp⟩ := Option.ne_none_iff_exists'.1 ht
  unfold refusal
  split <;> simp [SyntaxError.located, hp]

/-- What is reported at the end of the stream is reported at the token that ends it. -/
theorem position_of_terminalError? {phase : Phase} {t : Token} {e : SyntaxError}
    (ht : t.position ≠ none) (h : phase.terminalError? t = some e) :
    some e.position = t.position := by
  obtain ⟨p, hp⟩ := Option.ne_none_iff_exists'.1 ht
  unfold terminalError? endError? at h
  rw [hp] at h ⊢
  split_ifs at h
  · cases h
    rfl
  · split at h
    · cases h
    · cases h
    · split at h <;> cases h <;> rfl

end Parser.Phase

namespace Parse

open ScalarLang.Parser

/-- Syntax errors stand at tokens, and in their order: each token has at most one. -/
theorem sublist_errors_run {ts : List Token} (hterminal : ∃ t ∈ ts, t.isTerminal = true)
    (hpositions : ∀ t ∈ ts, t.position ≠ none) (phase : Phase) :
    ((run phase ts).errors.map fun e => some e.position).Sublist (ts.map (·.position)) := by
  induction ts generalizing phase with
  | nil => simp at hterminal
  | cons t ts ih =>
    have ht : t.position ≠ none := hpositions t List.mem_cons_self
    rw [List.map_cons]
    by_cases hend : t.isTerminal = true
    · rw [run_cons_of_terminal hend]
      cases herror : phase.terminalError? t with
      | none => exact List.nil_sublist _
      | some e =>
        show [some e.position].Sublist _
        rw [Phase.position_of_terminalError? ht herror]
        exact (List.nil_sublist _).cons_cons _
    have hrest := ih (by simpa [hend] using hterminal)
      fun u hu => hpositions u (List.mem_cons_of_mem _ hu)
    by_cases hcomment : t.isComment = true
    · rw [run_cons_of_comment hcomment]
      exact (hrest phase).cons _
    have hsignificant : t.Significant := ⟨by simpa using hcomment, by simpa using hend⟩
    cases hstep : phase.step t with
    | next phase' =>
      rw [run_cons_of_next hsignificant hstep]
      exact (hrest phase').cons _
    | complete statement =>
      rw [run_cons_of_complete hsignificant hstep]
      exact (hrest .start).cons _
    | refuse =>
      rw [run_cons_of_refuse hsignificant hstep, errors_cons_error, List.map_cons,
        phase.position_refusal ht]
      exact (hrest _).cons_cons _

/-- The syntax errors of a source stand at tokens of its stream, and in their order. -/
theorem sublist_errors_ofSource (source : List UInt8) :
    ((ofSource source).errors.map fun e => some e.position).Sublist
      ((Lexing.ofChars (Utf8.decode source)).stream.map (·.position)) :=
  sublist_errors_run (Lexing.exists_isTerminal_stream _)
    (fun _ => Lexing.position_ne_none_of_mem_stream) .start

end Parse

/-! ## Errors of analysis -/

namespace Analysis

open ScalarLang.Grammar

/-- The error is about the name that the token is. -/
inductive ErrorAt (t : Token) : Diagnostic → Prop
  | alreadyDeclared (h : t.kind = .identifier) : ErrorAt t ⟨.alreadyDeclared t.text, t.position⟩
  | undeclared (h : t.kind = .identifier) : ErrorAt t ⟨.undeclared t.text, t.position⟩

/-- The reason to reject the program shows at the token: at the name that is given a value, at the
outer one of two minuses, or at a number. -/
inductive FatalAt (t : Token) : Diagnostic → Prop
  | undeclared (h : t.kind = .identifier) : FatalAt t ⟨.undeclared t.text, t.position⟩
  | incompatible (h : t.kind = .identifier) (target value : ScalarType) (text : String) :
      FatalAt t ⟨.incompatible target value text, t.position⟩
  | consecutiveMinus (h : t.kind = .minus) : FatalAt t ⟨.consecutiveMinus, t.position⟩
  | malformed (h : t.kind = .number) (reason : String) :
      FatalAt t ⟨.malformed .number reason, t.position⟩

/-- What an identifier is reported for has its name and stands where it does. -/
theorem eq_of_report? {o : Occurrence} {d : Diagnostic} (h : o.report? = some d) :
    d = ⟨.alreadyDeclared o.token.text, o.token.position⟩ ∨
      d = ⟨.undeclared o.token.text, o.token.position⟩ := by
  unfold Occurrence.report? at h
  split at h
  · split_ifs at h
    exact .inl (Option.some.inj h).symm
  · cases h
  · split_ifs at h
    exact .inr (Option.some.inj h).symm

/-- What identifiers are reported for is reported in their order. -/
theorem sublist_reports (os : List Occurrence) :
    ((os.filterMap Occurrence.report?).map (·.position)).Sublist
      ((os.map (·.token)).map (·.position)) := by
  induction os with
  | nil => exact List.nil_sublist _
  | cons o os ih =>
    rw [List.map_cons, List.map_cons]
    cases hreport : o.report? with
    | none =>
      rw [List.filterMap_cons_none hreport]
      exact ih.cons _
    | some d =>
      have hposition : d.position = o.token.position := by
        rcases eq_of_report? hreport with rfl | rfl <;> rfl
      rw [List.filterMap_cons_some hreport, List.map_cons, hposition]
      exact ih.cons_cons _

/-! ## Fatal reasons -/

/-- What a value violates shows at one of its tokens. -/
theorem exists_fatalAt_of_mem_valueViolations {s : Nonterminal} (d : Phrase s)
    {diagnostic : Diagnostic} (h : diagnostic ∈ valueViolations d.tree) :
    ∃ t ∈ d.tokens, FatalAt t diagnostic := by
  induction d with
  | operand inner ih => exact ih h
  | primary inner ih => exact ih h
  | number literal =>
    rw [Phrase.tree, leaf, Tree.leaf, valueViolations_node] at h
    simp only [List.flatMap_nil, List.nil_append, nodeViolation?, Option.mem_toList] at h
    split_ifs at h
    cases h
    exact ⟨literal.val, List.mem_singleton_self _, .malformed literal.property _⟩
  | boolean literal => cases h
  | var name => cases h
  | unary op sign inner ih =>
    rw [Phrase.tree, valueViolations_node, List.flatMap_singleton] at h
    rcases List.mem_append.1 h with hinner | hown
    · obtain ⟨t, ht, hfatal⟩ := ih hinner
      exact ⟨t, List.mem_cons_of_mem _ ht, hfatal⟩
    · -- of the two operators only the minus can be one too many
      cases op with
      | not => cases hown
      | minus =>
        simp only [nodeViolation?, Option.mem_toList] at hown
        split_ifs at hown
        cases hown
        exact ⟨sign.val, List.mem_cons_self, .consecutiveMinus sign.property⟩
  | parens opening inner closing ih =>
    rw [Phrase.tree, valueViolations_node, List.flatMap_singleton] at h
    rcases List.mem_append.1 h with hinner | hown
    · obtain ⟨t, ht, hfatal⟩ := ih hinner
      exact ⟨t, List.mem_cons_of_mem _ (List.mem_append_left _ ht), hfatal⟩
    · cases hown
  | binary left op right ihl ihr =>
    rw [Phrase.tree, valueViolations_node] at h
    rcases List.mem_append.1 h with hoperand | hown
    · simp only [List.flatMap_cons, List.flatMap_nil, List.append_nil, List.mem_append] at hoperand
      rcases hoperand with hleft | hop | hright
      · obtain ⟨t, ht, hfatal⟩ := ihl hleft
        exact ⟨t, List.mem_append_left _ ht, hfatal⟩
      · cases hop
      · obtain ⟨t, ht, hfatal⟩ := ihr hright
        exact ⟨t, List.mem_append_right _ (List.mem_cons_of_mem _ ht), hfatal⟩
    · cases hown

/-- A value that cannot be stored is reported at the name. -/
theorem fatalAt_of_mismatch? {s : State} {type : ScalarType} {name : Token} {value : Tree}
    {diagnostic : Diagnostic} (hname : name.kind = .identifier)
    (h : mismatch? s type name.position value = some diagnostic) : FatalAt name diagnostic := by
  unfold mismatch? at h
  split at h
  · cases h
  · obtain ⟨operand, -, hrefused⟩ := Option.bind_eq_some_iff.1 h
    split_ifs at hrefused
    cases hrefused
    exact .incompatible hname _ _ _

/-- What a statement violates shows at one of its tokens. -/
theorem exists_fatalAt_of_mem_violations (d : Statement) {before : List Tree}
    {diagnostic : Diagnostic} (h : diagnostic ∈ violations before d.tree) :
    ∃ t ∈ d.tokens, FatalAt t diagnostic := by
  cases d with
  | declaration type name assign value =>
    simp only [Statement.tree, leaf, Tree.leaf, violations, List.mem_append, Option.mem_toList] at h
    rcases h with hvalue | hstored
    · obtain ⟨t, ht, hfatal⟩ := exists_fatalAt_of_mem_valueViolations value hvalue
      exact ⟨t, by simp [Statement.tokens, ht], hfatal⟩
    · obtain ⟨scalarType, -, hmismatch⟩ := Option.bind_eq_some_iff.1 hstored
      exact ⟨name.val, by simp [Statement.tokens], fatalAt_of_mismatch? name.property hmismatch⟩
  | assignment name assign value =>
    simp only [Statement.tree, leaf, Tree.leaf, violations, List.mem_append, Option.mem_toList] at h
    rcases h with htarget | hvalue | hstored
    · split_ifs at htarget
      · cases htarget
      · obtain rfl := List.mem_singleton.1 htarget
        exact ⟨name.val, List.mem_cons_self, .undeclared name.property⟩
    · obtain ⟨t, ht, hfatal⟩ := exists_fatalAt_of_mem_valueViolations value hvalue
      exact ⟨t, by simp [Statement.tokens, ht], hfatal⟩
    · obtain ⟨scalarType, -, hmismatch⟩ := Option.bind_eq_some_iff.1 hstored
      exact ⟨name.val, List.mem_cons_self, fatalAt_of_mismatch? name.property hmismatch⟩
  | expression value =>
    rw [Statement.tree, violations_phrase] at h
    exact exists_fatalAt_of_mem_valueViolations value h

/-- The fatal reason of a program shows at a token of one of its statements. -/
theorem exists_fatalAt_of_run {sts : List Statement}
    (hspelled : ∀ d ∈ sts, ∀ t ∈ d.tokens, Lexeme.Spelled t.kind t.text.toList)
    {diagnostic : Diagnostic}
    (h : halt? (run .initial (sts.map Statement.tree)).result = some (.fatal diagnostic)) :
    ∃ d ∈ sts, ∃ t ∈ d.tokens, FatalAt t diagnostic := by
  obtain ⟨_, ⟨⟩, pre, tree, post, hsplit, -, hhead⟩ := (halt?_run_initial_iff hspelled _).1 h
  have hmem : tree ∈ sts.map Statement.tree := by simp [hsplit]
  obtain ⟨d, hd, rfl⟩ := List.mem_map.1 hmem
  exact ⟨d, hd, exists_fatalAt_of_mem_violations d (List.mem_of_head? hhead)⟩

end Analysis

/-! ## Sources -/

/-- What is rejected for a fatal reason has no other errors. -/
theorem Verdict.errors_eq_nil_of_fatal {t : Tree} {v : Verdict} (h : ofTree? t = some v)
    (hfatal : v.fatal ≠ none) : v.errors = [] := by
  unfold ofTree? at h
  split at h
  · dsimp only at h
    split at h
    · cases h
      exact absurd fatal_ofStatements hfatal
    · cases h
      rfl
    · cases h
  · cases h
    rfl

namespace Report

open ScalarLang.Analysis ScalarLang.Grammar

/-- The tokens of a sentence are tokens of the stream, in the same order. -/
theorem sublist_sentence (source : List UInt8) :
    (Parse.sentence source).Sublist (Lexing.ofChars (Utf8.decode source)).stream :=
  List.filter_sublist.trans (List.sublist_append_left _ _)

/-- The verdict on a source without syntax errors. Its errors are what some identifiers are reported
for, in their order, and its fatal reason shows at a token. -/
theorem exists_verdict_at_tokens {source : List UInt8} (h : (Parse.ofSource source).errors = []) :
    ∃ v, Verdict.ofTree? (Parse.ofSource source).tree = some v ∧
      (∃ os : List Occurrence, v.errors = os.filterMap Occurrence.report? ∧
        (os.map (·.token)).Sublist ((Parse.sentence source).filter (·.kind = .identifier))) ∧
        ∀ d, v.fatal = some d → ∃ t ∈ Parse.sentence source, FatalAt t d := by
  obtain ⟨derivation, htokens, hstatements, hspelled⟩ := Parse.exists_statements_of_ofSource h
  have hmissing := halt?_run_ne_missingNode hspelled
  rw [← hstatements] at hmissing
  obtain ⟨v, hv, -, hok, hhalt⟩ := Verdict.exists_ofTree? (some Position.start) hmissing
  rw [hstatements] at hok hhalt
  refine ⟨v, hv, ?_, ?_⟩
  · by_cases hfatal : v.fatal = none
    · obtain ⟨es, hrun⟩ := hok hfatal
      have hinitial : State.initial.symbols.symbols = SymbolTable.firsts [] := rfl
      refine ⟨allOccurrences [] (derivation.map Prod.fst),
        diagnostics_run _ hspelled hinitial hrun, ?_⟩
      rw [map_token_allOccurrences, htokens]
    · exact ⟨[], Verdict.errors_eq_nil_of_fatal hv hfatal, List.nil_sublist _⟩
  · intro d hd
    obtain ⟨statement, hmem, t, ht, hfatal⟩ := exists_fatalAt_of_run hspelled (hhalt d hd)
    obtain ⟨pair, hpair, rfl⟩ := List.mem_map.1 hmem
    refine ⟨t, ?_, hfatal⟩
    rw [← htokens]
    exact List.mem_flatMap.2 ⟨pair, hpair, List.mem_append_left _ ht⟩

/-- Diagnostics come in the order of the source, and each is about a token of it. The syntax errors
of any source stand at tokens of its stream, the one that ends the stream included, each behind the
one before it. If there are none, the same holds of the errors that analysis finds: each stands at
the identifier whose name it gives. A fatal reason stands at the name that is given a value, at a
minus or at a number, by what it says. -/
theorem diagnostics_in_order (filename : String) (source : List UInt8) :
    let stream := (Lexing.ofChars (Utf8.decode source)).stream
    let report := ofSource filename source
    ((report.syntaxErrors.map (·.position)).Pairwise Position.Before ∧
        ∀ e ∈ report.syntaxErrors, ∃ t ∈ stream, t.position = some e.position) ∧
      (report.syntaxErrors = [] → ∃ v, report.verdict = some v ∧
        (v.errors.map (·.position)).Pairwise Precedes ∧
          (∀ d ∈ v.errors, ∃ t ∈ stream, ErrorAt t d) ∧
            ∀ d, v.fatal = some d → ∃ t ∈ stream, FatalAt t d) := by
  intro stream report
  have horder : (stream.map (·.position)).Pairwise Precedes := Lexing.precedes_stream _
  have hparse : report.syntaxErrors = (Parse.ofSource source).errors :=
    syntaxErrors_ofSource filename source
  refine ⟨?_, fun hnone => ?_⟩
  · have hsublist := Parse.sublist_errors_ofSource source
    rw [hparse]
    constructor
    · have hsome := horder.sublist hsublist
      rw [List.pairwise_map] at hsome ⊢
      exact hsome
    · intro e he
      exact List.mem_map.1 (hsublist.subset (List.mem_map_of_mem he))
  · have h : (Parse.ofSource source).errors = [] := hparse.symm.trans hnone
    obtain ⟨v, hv, ⟨os, herrors, hos⟩, hfatal⟩ := exists_verdict_at_tokens h
    have hsentence := sublist_sentence source
    refine ⟨v, ?_, ?_, ?_, ?_⟩
    · show (ofSource filename source).verdict = some v
      rw [ofSource_of_errors_eq_nil h]
      exact hv
    · have htokens := (hos.trans List.filter_sublist).trans hsentence
      rw [herrors]
      exact horder.sublist ((sublist_reports os).trans (htokens.map _))
    · intro d hd
      rw [herrors] at hd
      obtain ⟨o, ho, hreport⟩ := List.mem_filterMap.1 hd
      obtain ⟨hmem, hkind⟩ := List.mem_filter.1 (hos.subset (List.mem_map_of_mem ho))
      refine ⟨o.token, hsentence.subset hmem, ?_⟩
      rcases eq_of_report? hreport with rfl | rfl
      · exact .alreadyDeclared (by simpa using hkind)
      · exact .undeclared (by simpa using hkind)
    · intro d hd
      obtain ⟨t, ht, hat⟩ := hfatal d hd
      exact ⟨t, hsentence.subset ht, hat⟩

/-- A source with names that are declared again or not at all, and one with a minus too many. -/
theorem diagnostics_in_order_sample :
    let source := Utf8.encode "x; int x = y + // y\n y; float x = x;\n\tx = (z);".toList
    let signed := Utf8.encode "float f = 1;\nf = f - - -2;".toList
    ((ofSource "" source).syntaxErrors = [] ∧
        ∃ v, (ofSource "" source).verdict = some v ∧ v.errors.length = 5 ∧
          (v.errors.map (·.position)).Pairwise Precedes ∧
            ∀ d ∈ v.errors, ∃ t ∈ (Lexing.ofChars (Utf8.decode source)).stream, ErrorAt t d) ∧
      (ofSource "" signed).syntaxErrors = [] ∧
        ∃ t ∈ (Lexing.ofChars (Utf8.decode signed)).stream,
          FatalAt t ⟨.consecutiveMinus, some ⟨2, 9⟩⟩ := by
  intro source signed
  have h : (ofSource "" source).syntaxErrors = [] := by decide +kernel
  have hlength : (ofSource "" source).verdict.map (·.errors.length) = some 5 := by decide +kernel
  have h' : (ofSource "" signed).syntaxErrors = [] := by decide +kernel
  have hreason : (ofSource "" signed).verdict.map (·.fatal)
      = some (some ⟨.consecutiveMinus, some ⟨2, 9⟩⟩) := by decide +kernel
  obtain ⟨v, hv, horder, herrors, -⟩ := (diagnostics_in_order "" source).2 h
  obtain ⟨w, hw, -, -, hfatal⟩ := (diagnostics_in_order "" signed).2 h'
  rw [hv] at hlength
  rw [hw] at hreason
  exact ⟨⟨h, v, hv, Option.some.inj hlength, horder, herrors⟩, h',
    hfatal _ (Option.some.inj hreason)⟩

end Report

end ScalarLang
