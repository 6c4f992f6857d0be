import ScalarLang.Proofs.Analysis.Relocation
import ScalarLang.Proofs.Source.Sentence
import ScalarLang.Proofs.Token.Placement

/-!
# Blanks and comments have no part in what is reported

The words of a source are the kinds and texts of its tokens, comments left out. Sources with the
same words may differ in blanks, line feeds and comments, and so in every position. What is reported
of them differs in positions only: parser and analysis can be run on the words alone, without any
positions, and say the same there. The module introduces:

* `Lexing.words`: the words of a source, the token that ends the stream included;
* `bare`: the tokens of some words, which stand nowhere;
* `Verdict.findings`: what a verdict says, positions apart.

The main step is `ofSource_relocate_forget`: what the parser makes of a source is what it makes of
its words.
-/

namespace ScalarLang

/-- The kinds and texts of the tokens that are no comments. The last one tells how the stream
ends. -/
def Lexing.words (l : Lexing) : List (Token.Kind × String) :=
  (l.stream.filter (!·.isComment)).map fun t => (t.kind, t.text)

/-- The tokens of some words. -/
def bare (words : List (Token.Kind × String)) : List Token :=
  words.map fun word => ⟨word.1, word.2, none⟩

/-- Forgets every position. -/
def forget (_ : Position) : Option Position :=
  none

/-- A token without its position is a word. -/
theorem map_relocate_forget (l : Lexing) :
    (l.stream.filter (!·.isComment)).map (Token.relocate forget) = bare l.words := by
  unfold bare Lexing.words
  rw [List.map_map]
  apply List.map_congr_left
  intro t _
  show Token.mk t.kind t.text (t.position.bind forget) = ⟨t.kind, t.text, none⟩
  cases t.position <;> rfl

/-! ## Parsing -/

namespace Parse

/-- What the parser makes of a source goes with the positions of its tokens, comments left out. -/
theorem ofSource_relocate (f : Position → Option Position) (source : List UInt8) :
    (ofTokens (((Lexing.ofChars (Utf8.decode source)).stream.filter (!·.isComment)).map
          (Token.relocate f))).statements
        = (ofSource source).statements.map (Tree.relocate f) ∧
      (ofTokens (((Lexing.ofChars (Utf8.decode source)).stream.filter (!·.isComment)).map
          (Token.relocate f))).errors
        = (ofSource source).errors.map (SyntaxError.relocate f) := by
  set l := Lexing.ofChars (Utf8.decode source)
  -- comments are passed over, so they may be left out at once
  have houtcomes : (ofTokens (l.stream.filter (!·.isComment))).outcomes
      = (ofSource source).outcomes := outcomes_run_filter .start l.stream
  have hterminal : ∃ t ∈ l.stream.filter (!·.isComment), t.isTerminal = true := by
    obtain ⟨t, ht, hend⟩ := Lexing.exists_isTerminal_stream l
    refine ⟨t, List.mem_filter.2 ⟨ht, ?_⟩, hend⟩
    simp only [Token.isTerminal, Bool.or_eq_true, decide_eq_true_eq] at hend
    rcases hend with hkind | hkind <;> simp [Token.isComment, hkind]
  have hpositions : ∀ t ∈ l.stream.filter (!·.isComment), t.position ≠ none := by
    intro t ht
    exact Lexing.position_ne_none_of_mem_stream (List.mem_filter.1 ht).1
  obtain ⟨hstatements, herrors⟩ := ofTokens_relocate f hterminal hpositions
  rw [hstatements, herrors, statements, errors, statements, errors, houtcomes]
  exact ⟨rfl, rfl⟩

/-- What the parser makes of a source is, positions apart, what it makes of the words. -/
theorem ofSource_relocate_forget (source : List UInt8) :
    (ofSource source).statements.map (Tree.relocate forget)
        = (ofTokens (bare (Lexing.ofChars (Utf8.decode source)).words)).statements ∧
      (ofSource source).errors.map (SyntaxError.relocate forget)
        = (ofTokens (bare (Lexing.ofChars (Utf8.decode source)).words)).errors := by
  obtain ⟨hstatements, herrors⟩ := ofSource_relocate forget source
  rw [map_relocate_forget] at hstatements herrors
  exact ⟨hstatements.symm, herrors.symm⟩

variable {source source' : List UInt8}

/-- The syntax errors of a source have the causes that its words give them. -/
theorem map_cause_errors_of_words_eq
    (h : (Lexing.ofChars (Utf8.decode source)).words
      = (Lexing.ofChars (Utf8.decode source')).words) :
    (ofSource source).errors.map (·.cause) = (ofSource source').errors.map (·.cause) := by
  have hcause (errors : List SyntaxError) :
      (errors.map (SyntaxError.relocate forget)).map (·.cause) = errors.map (·.cause) := by
    rw [List.map_map]
    rfl
  rw [← hcause, ← hcause (ofSource source').errors, (ofSource_relocate_forget source).2,
    (ofSource_relocate_forget source').2, h]

/-- Sources with the same words have the same tree, positions apart. -/
theorem relocate_tree_of_words_eq
    (h : (Lexing.ofChars (Utf8.decode source)).words
      = (Lexing.ofChars (Utf8.decode source')).words) :
    (ofSource source).tree.relocate forget = (ofSource source').tree.relocate forget := by
  unfold tree
  rw [Tree.relocate_node, Tree.relocate_node, (ofSource_relocate_forget source).1,
    (ofSource_relocate_forget source').1, h]

end Parse

/-! ## Verdicts and reports -/

/-- What a verdict says, positions apart: the program, what is wrong, and the names and types of the
variables. -/
structure Findings where
  program : Option Program
  errors : List Diagnostic.Cause
  fatal : Option Diagnostic.Cause
  signature : List (String × ScalarType)
  deriving DecidableEq, Repr

namespace Verdict

/-- What the verdict says, positions apart. -/
def findings (v : Verdict) : Findings :=
  ⟨v.program, v.errors.map (·.cause), v.fatal.map (·.cause), v.symbols.signature⟩

/-- Findings do not depend on positions. -/
theorem findings_relocate (f : Position → Option Position) (v : Verdict) :
    (v.relocate f).findings = v.findings := by
  unfold findings relocate
  rw [SymbolTable.signature_relocate, List.map_map, Option.map_map]
  rfl

/-- Trees that differ in positions only have the same findings. -/
theorem findings_of_relocate_eq {f : Position → Option Position} {t t' : Tree}
    (h : t.relocate f = t'.relocate f) :
    (ofTree? t).map findings = (ofTree? t').map findings := by
  have hfindings (t : Tree) : (ofTree? (t.relocate f)).map findings = (ofTree? t).map findings := by
    rw [ofTree?_relocate, Option.map_map]
    congr 1
    funext v
    exact findings_relocate f v
  rw [← hfindings, h, hfindings]

end Verdict

namespace Report

/-- Blanks and comments have no part in what is reported. If two sources have the same words, the
token that ends the stream included, then their syntax errors have the same causes in the same
order, and the verdicts, if there are any, say the same of both but for positions: the program, the
causes of the errors and of the fatal reason, the names and types of the variables. -/
theorem findings_of_words_eq {source source' : List UInt8}
    (h : (Lexing.ofChars (Utf8.decode source)).words
      = (Lexing.ofChars (Utf8.decode source')).words) (filename : String) :
    (ofSource filename source).syntaxErrors.map (·.cause)
        = (ofSource filename source').syntaxErrors.map (·.cause) ∧
      (ofSource filename source).verdict.map Verdict.findings
        = (ofSource filename source').verdict.map Verdict.findings := by
  have hcauses := Parse.map_cause_errors_of_words_eq h
  have htree := Verdict.findings_of_relocate_eq (Parse.relocate_tree_of_words_eq h)
  constructor
  · rw [syntaxErrors_ofSource, syntaxErrors_ofSource, hcauses]
  · -- either both sources are analysed or neither is
    have hnone : (Parse.ofSource source).errors = [] ↔ (Parse.ofSource source').errors = [] := by
      rw [← List.map_eq_nil_iff, hcauses, List.map_eq_nil_iff]
    by_cases herrors : (Parse.ofSource source).errors = []
    · rw [ofSource_of_errors_eq_nil herrors, ofSource_of_errors_eq_nil (hnone.1 herrors)]
      exact htree
    · have herrors' : (Parse.ofSource source').errors ≠ [] := fun h => herrors (hnone.2 h)
      simp [ofSource, herrors, herrors']

/-- The same words, once with as few blanks as possible and once with comments between them. -/
theorem findings_of_words_eq_sample :
    let source := Utf8.encode "int x=1;x=y+-x;int x=z;".toList
    let source' :=
      Utf8.encode "int // x\n x = 1 ;\n\n\tx = y // + 2;\n + - x;// int\nint x = z\n;//".toList
    (Lexing.ofChars (Utf8.decode source)).words = (Lexing.ofChars (Utf8.decode source')).words ∧
      (ofSource "" source).syntaxErrors.map (·.cause)
          = (ofSource "" source').syntaxErrors.map (·.cause) ∧
        (ofSource "" source).verdict.map Verdict.findings
          = (ofSource "" source').verdict.map Verdict.findings := by
  intro source source'
  have h : (Lexing.ofChars (Utf8.decode source)).words
      = (Lexing.ofChars (Utf8.decode source')).words := by decide +kernel
  exact ⟨h, findings_of_words_eq h ""⟩

end Report

end ScalarLang
