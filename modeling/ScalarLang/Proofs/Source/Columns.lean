import ScalarLang.Proofs.Analysis.Extension
import ScalarLang.Proofs.Source.Wording
import ScalarLang.Proofs.Token.Separation

/-!
# What is reported of a source, columns apart

Parser and analysis can be run on tokens that know their lines and not their columns, and say the
same there but for columns. The module introduces:

* `lineOnly`: keeps the line of a position;
* `Lexing.lined`: the tokens of a source, comments left out, with their lines alone;
* `wordsAt position words`: the tokens of some words that are all at one position;
* `Lexing.Resumes word lex`: what becomes of a line that follows a word;
* `Report.wordings`: what is reported of a source, each message with its line;
* `Parse.wordings`: what would be reported of a parse.

Tokens without columns depend less on what comes before them. In a line they are the words of the
line (`lined_scan_of_line`), and a line that follows a word and a space is lexed on from there or
has no part in the syntax, whatever text comes before the word (`resumes_scan`). A source is
reported as its tokens without columns are (`wordings_ofSource`).
-/

namespace ScalarLang

/-- Keeps the line of a position. -/
def lineOnly (p : Position) : Option Position :=
  some ⟨p.line, 0⟩

/-- The tokens that are no comments, with their lines and without their columns. -/
def Lexing.lined (l : Lexing) : List Token :=
  (l.stream.filter (!·.isComment)).map (Token.relocate lineOnly)

/-- The tokens of some words, all at one position. -/
def wordsAt (position : Option Position) (words : List (Token.Kind × String)) : List Token :=
  words.map fun word => ⟨word.1, word.2, position⟩

/-! ## Tokens of one line -/

/-- Counting on in a line stays in that line. -/
theorem Position.line_advance {c : Char} {cs : List Char} (h : '\n' ∉ c :: cs) (p : Position) :
    (p.advance c).line = p.line := by
  rw [advance, if_neg (Ne.symm (List.ne_of_not_mem_cons h))]

theorem Position.line_after {cs : List Char} (h : '\n' ∉ cs) (p : Position) :
    (p.after cs).line = p.line := by
  induction cs generalizing p with
  | nil => rfl
  | cons c cs ih =>
    have hcs := ih (List.not_mem_of_not_mem_cons h) (p.advance c)
    exact hcs.trans (line_advance h p)

namespace Lexing

/-- A token in front, unless it is a comment. -/
theorem lined_cons (t : Token) (l : Lexing) :
    (l.cons t).lined
      = if t.isComment = true then l.lined else t.relocate lineOnly :: l.lined := by
  unfold lined stream cons
  split_ifs with ht <;> simp [ht]

/-- The tokens of a line are in that line. -/
theorem bind_lineOnly_of_mem_stream {cs : List Char} (h : '\n' ∉ cs) {skip : Nat} {p : Position}
    {t : Token} (ht : t ∈ (scan skip p cs).stream) :
    t.position.bind lineOnly = some ⟨p.line, 0⟩ := by
  fun_induction scan skip p cs with
  | case1 skip p =>
    obtain rfl := List.mem_singleton.1 ht
    rfl
  | case2 skip p c cs ih =>
    rw [← Position.line_advance h]
    exact ih (List.not_mem_of_not_mem_cons h) ht
  | case3 p c cs hblank ih =>
    rw [← Position.line_advance h]
    exact ih (List.not_mem_of_not_mem_cons h) ht
  | case4 p c cs hblank l hread ih =>
    rcases List.mem_cons.1 ht with rfl | ht
    · rfl
    · rw [← Position.line_advance h]
      exact ih (List.not_mem_of_not_mem_cons h) ht
  | case5 p c cs hblank e hread =>
    obtain rfl := List.mem_singleton.1 ht
    rfl

/-- The tokens of a line are its words. -/
theorem lined_scan_of_line {cs : List Char} (h : '\n' ∉ cs) (p : Position) :
    (scan 0 p cs).lined = wordsAt (some ⟨p.line, 0⟩) (scan 0 p cs).words := by
  unfold lined wordsAt words
  rw [List.map_map]
  apply List.map_congr_left
  intro t ht
  show Token.mk t.kind t.text (t.position.bind lineOnly) = ⟨t.kind, t.text, some ⟨p.line, 0⟩⟩
  rw [bind_lineOnly_of_mem_stream h (List.mem_filter.1 ht).1]

end Lexing

/-! ## A word behind any text -/

namespace Lexing

open ScalarLang.Lexeme

/-- What follows in the line has no part in the syntax, or it is lexed on behind a word that ends
with `word`. -/
def Resumes (word : List Char) (lex : List Char → Lexing) : Prop :=
  (∃ us, ∀ rest, '\n' ∉ rest → (lex rest).lined = us) ∨
    ∃ (us : List Token) (before : List Char) (position : Option Position) (q : Position),
      (∀ u ∈ us, u.isTerminal = false) ∧ ∀ rest,
        (lex rest).lined = us ++ ⟨wordKind (String.ofList (before ++ word)),
          String.ofList (before ++ word), position⟩ :: (scan 0 q rest).lined

/-- This is said of the result of lexing only. -/
theorem Resumes.congr {word : List Char} {lex lex' : List Char → Lexing} (h : Resumes word lex)
    (heq : ∀ rest, lex' rest = lex rest) : Resumes word lex' :=
  (funext heq : lex' = lex) ▸ h

/-- Lexing may have ended before the word. -/
theorem resumes_const (word : List Char) (l : Lexing) : Resumes word fun _ => l :=
  .inl ⟨l.lined, fun _ _ => rfl⟩

/-- A token in front changes nothing of this. -/
theorem Resumes.cons {word : List Char} {lex : List Char → Lexing} (h : Resumes word lex)
    {t : Token} (ht : t.isTerminal = false) : Resumes word fun rest => (lex rest).cons t := by
  rcases h with ⟨us, hlex⟩ | ⟨us, before, position, q, hus, hlex⟩
  · refine .inl ⟨if t.isComment = true then us else t.relocate lineOnly :: us, fun rest hrest => ?_⟩
    rw [lined_cons, hlex rest hrest]
  · refine .inr ⟨if t.isComment = true then us else t.relocate lineOnly :: us, before, position, q,
      ?_, fun rest => ?_⟩
    · split_ifs
      · exact hus
      · exact List.forall_mem_cons.2 ⟨ht, hus⟩
    · rw [lined_cons, hlex]
      split_ifs <;> rfl

variable {d : Char} {ds : List Char}

/-- The token of a lexeme does not end the stream. -/
theorem isTerminal_of_read {c : Char} {cs : List Char} {l : Lexeme} (h : read c cs = .ok l)
    (position : Option Position) : (Token.mk l.kind (l.text c) position).isTerminal = false := by
  rcases spelled_read h with hcomment | hspelled
  · simp [Token.isTerminal, hcomment]
  · simp [Token.isTerminal, (kind_of_spelled hspelled).2]

/-- In a comment that is not ended, nothing but the end of the input follows. -/
theorem lined_of_unclosed {c : Char} {cs rest : List Char} (h : Unclosed c cs)
    (hrest : '\n' ∉ rest) (p : Position) :
    (scan 0 p (c :: (cs ++ rest))).lined = [⟨.endOfInput, "", some ⟨p.line, 0⟩⟩] := by
  let comment : Lexeme := ⟨.comment, cs ++ rest⟩
  have hread : read c (comment.tail ++ []) = .ok comment := by
    rw [List.append_nil, read_of_unclosed h hrest]
  obtain ⟨rfl, tail, rfl, htail⟩ := h
  have hline : '\n' ∉ '/' :: ('/' :: tail ++ rest) := by simp [htail, hrest]
  have hscan := scan_lexeme (by decide) hread p
  rw [List.append_nil] at hscan
  have hcomment : (Token.mk comment.kind (comment.text '/') (some p)).isComment = true := rfl
  rw [hscan, lined_cons, if_pos hcomment]
  show [Token.mk .endOfInput "" (some ⟨(p.after _).line, 0⟩)] = _
  rw [Position.line_after hline]

/-- A word in front of a space. -/
theorem resumes_word {before word : List Char}
    (h : Spelled (wordKind (String.ofList (before ++ word))) (before ++ word)) (p : Position) :
    Resumes word fun rest => scan 0 p (before ++ word ++ ' ' :: rest) := by
  refine .inr ⟨[], before, some ⟨p.line, 0⟩, (p.after (before ++ word)).advance ' ', by simp,
    fun rest => ?_⟩
  have hcomment := (kind_of_spelled h).1
  show (scan 0 p (before ++ word ++ ' ' :: rest)).lined = _
  rw [scan_spelled_space h]
  exact (lined_cons _ _).trans (if_neg (by simpa [Token.isComment] using hcomment))

/-- Behind any text, a word in front of a space ends a token, or what follows it in its line has no
part in the syntax. -/
theorem resumes_scan (hd : isWordStart d = true) (hds : ∀ e ∈ ds, isWordPart e = true)
    (cs : List Char) (p : Position) :
    Resumes (d :: ds) fun rest => scan 0 p (cs ++ d :: ds ++ ' ' :: rest) := by
  -- on the length of the text: each token takes at least its first character
  induction hlength : cs.length using Nat.strong_induction_on generalizing p cs with
  | h n ih =>
    cases cs with
    | nil => exact @resumes_word [] (d :: ds) (.word hd hds) p
    | cons c cs =>
      rw [List.length_cons] at hlength
      by_cases hblank : Text.isBlank c = true
      · have hrest := ih cs.length (by omega) cs (p.advance c) rfl
        exact hrest.congr fun rest => scan_blank hblank p _
      by_cases hunclosed : Unclosed c (cs ++ d :: ds)
      · -- the word is in a comment, and so is all that follows
        refine .inl ⟨[⟨.endOfInput, "", some ⟨p.line, 0⟩⟩], fun rest hrest => ?_⟩
        exact lined_of_unclosed hunclosed (by simpa using hrest) p
      have hread (rest : List Char) :
          read c (cs ++ d :: ds ++ ' ' :: rest) = read c (cs ++ d :: ds) :=
        read_append_separator (.inl rfl) (fun _ => hunclosed) rest
      cases hlexeme : read c (cs ++ d :: ds) with
      | error e =>
        refine (resumes_const _ ⟨[], .failure e p⟩).congr fun rest => ?_
        rw [List.cons_append, List.cons_append, scan, if_neg hblank, hread, hlexeme]
      | ok l =>
        rcases read_append_word hd hds hlexeme hunclosed with ⟨between, rfl⟩ | rfl
        · -- the word is in what follows the lexeme
          have hrest := ih between.length (by simp at hlength; omega) between
            (p.after (c :: l.tail)) rfl
          refine (hrest.cons (isTerminal_of_read hlexeme (some p))).congr fun rest => ?_
          have htext : c :: (l.tail ++ between) ++ d :: ds ++ ' ' :: rest
              = c :: (l.tail ++ (between ++ d :: ds ++ ' ' :: rest)) := by simp
          have hlexeme' : read c (l.tail ++ (between ++ d :: ds ++ ' ' :: rest)) = .ok l := by
            rw [← hlexeme, ← hread rest]
            simp
          rw [htext]
          exact scan_lexeme (by simpa using hblank) hlexeme' p
        · -- the word is the end of a longer one
          have hspelled := (spelled_read hlexeme).resolve_left fun hkind => ?_
          · exact @resumes_word (c :: cs) (d :: ds) hspelled p
          · rcases wordKind_eq (String.ofList (c :: cs ++ d :: ds)) with h | h | h <;>
              exact absurd (h.symm.trans hkind) (by decide)

end Lexing

/-! ## Messages -/

/-- The message of a syntax error and its line. -/
def SyntaxError.wording (e : SyntaxError) : String × Option Int :=
  (e.message, some e.position.line)

/-- The message of a diagnostic and its line. -/
def Diagnostic.wording (d : Diagnostic) : String × Option Int :=
  (d.cause.message, d.position.map (·.line))

/-- What a verdict reports. A fatal reason is reported alone. -/
def Verdict.wordings (v : Verdict) : List (String × Option Int) :=
  match v.fatal with
  | some diagnostic => [diagnostic.wording]
  | none => v.errors.map Diagnostic.wording

/-- What is reported of a source: its syntax errors, or what the verdict reports. -/
def Report.wordings (r : Report) : List (String × Option Int) :=
  r.syntaxErrors.map SyntaxError.wording ++ r.verdict.elim [] Verdict.wordings

/-- The columns have no part in the wording. -/
theorem SyntaxError.wording_relocate (e : SyntaxError) :
    (e.relocate lineOnly).wording = e.wording := rfl

theorem Diagnostic.wording_relocate (d : Diagnostic) :
    (d.relocate lineOnly).wording = d.wording := by
  rcases d with ⟨cause, _ | position⟩ <;> rfl

theorem Verdict.wordings_relocate (v : Verdict) :
    (v.relocate lineOnly).wordings = v.wordings := by
  rcases v with ⟨program, errors, _ | fatal, symbols⟩
  · show (errors.map (Diagnostic.relocate lineOnly)).map Diagnostic.wording = _
    rw [List.map_map]
    exact List.map_congr_left fun d _ => d.wording_relocate
  · exact congrArg (· :: []) fatal.wording_relocate

/-! ## Analysis -/

namespace Analysis

/-- The diagnostics of an analysis, or the reason why it ended early. -/
def Run.reported (r : Run) : Except Halt (List Diagnostic) :=
  r.result.map Prod.snd

/-- The messages for what is reported. -/
def wordings : Except Halt (List Diagnostic) → List (String × Option Int)
  | .ok diagnostics => diagnostics.map Diagnostic.wording
  | .error (.fatal diagnostic) => [diagnostic.wording]
  | .error .missingNode => []

/-- A statement in front adds its diagnostics, if the analysis gets to its end. -/
theorem Run.reported_cons (r : Run) (e : Expr) (diagnostics : List Diagnostic) :
    (r.cons e diagnostics).reported = r.reported.map (diagnostics ++ ·) := by
  rcases r with ⟨s, reason | ⟨later, rest⟩⟩ <;> rfl

/-- A verdict reports what the analysis does. -/
theorem wordings_ofTree? (text : String) (position : Option Position) (statements : List Tree) :
    (Verdict.ofTree? (.node .program text position statements)).elim [] Verdict.wordings
      = wordings (run .initial statements).reported := by
  rw [Verdict.ofTree?]
  rcases run .initial statements with ⟨s, (diagnostic | _) | ⟨es, errors⟩⟩
  · rfl
  · rfl
  · show (Verdict.ofStatements es errors s.symbols).wordings = errors.map Diagnostic.wording
    rw [Verdict.wordings, Verdict.fatal_ofStatements, Verdict.errors_ofStatements]

end Analysis

/-! ## Sources -/

/-- What would be reported of a parse. -/
def Parse.wordings (p : Parse) : List (String × Option Int) :=
  if p.errors = [] then Analysis.wordings (Analysis.run .initial p.statements).reported
  else p.errors.map SyntaxError.wording

/-- A source is reported as its tokens without columns are. -/
theorem Report.wordings_ofSource (filename : String) (source : List UInt8) :
    (ofSource filename source).wordings
      = (Parse.ofTokens (Lexing.ofChars (Utf8.decode source)).lined).wordings := by
  obtain ⟨hstatements, herrors⟩ := Parse.ofSource_relocate lineOnly source
  rw [Parse.wordings, Lexing.lined, hstatements, herrors, List.map_map]
  by_cases hnone : (Parse.ofSource source).errors = []
  · -- analysis goes with the positions, and wordings do not depend on columns
    have hverdict := Verdict.ofTree?_relocate lineOnly (Parse.ofSource source).tree
    rw [Parse.tree, Tree.relocate_node, ← Parse.tree] at hverdict
    rw [ofSource_of_errors_eq_nil hnone, if_pos (List.map_eq_nil_iff.2 hnone),
      ← Analysis.wordings_ofTree?, hverdict, wordings, List.map_nil, List.nil_append]
    cases Verdict.ofTree? (Parse.ofSource source).tree with
    | none => rfl
    | some v => exact v.wordings_relocate.symm
  · rw [if_neg (mt List.map_eq_nil_iff.1 hnone), wordings, syntaxErrors_ofSource]
    have hverdict : (ofSource filename source).verdict = none := by simp [ofSource, hnone]
    rw [hverdict]
    exact List.append_nil _

end ScalarLang
