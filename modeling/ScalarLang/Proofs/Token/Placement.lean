import ScalarLang.Proofs.Text.Decoding
import ScalarLang.Proofs.Token.Spelling

/-!
# Where tokens stand

Lexing loses nothing: the tokens of a source, each behind the blanks in front of it, are the source
again, up to the place where lexing ended. Each token carries the line and the column of its first
character, and so does the token that ends the stream. The module introduces:

* `Token.written`: the characters that a token stands for;
* `Placed`: a token behind blanks;
* `Position.behind before`: the position of a character behind the characters `before`;
* `Laid p cs l words blanks rest`: how the lexing `l` of `cs` splits it up, if the first character
  of `cs` stands at `p`.

The main results are `exists_laid`, for the characters from any position on, and
`stream_placed`, for the bytes of a whole source.
-/

namespace ScalarLang

/-- The characters that a token stands for: its text, behind two slashes if it is a comment. -/
def Token.written (t : Token) : List Char :=
  if t.isComment then '/' :: '/' :: t.text.toList else t.text.toList

/-! ## Lines and columns -/

namespace Position

/-- The position of the character behind `before` in a source: one more than the line feeds before
it, and one more than the characters since the last of them. -/
def behind (before : List Char) : Position :=
  ⟨1 + before.count '\n', 1 + (before.reverse.takeWhile (· != '\n')).length⟩

/-- Counting on from the start of a source gives this position. -/
theorem after_start (cs : List Char) : start.after cs = behind cs := by
  induction cs using List.reverseRecOn with
  | nil => rfl
  | append_singleton cs c ih =>
    have hstep : start.after (cs ++ [c]) = (start.after cs).advance c := List.foldl_concat ..
    rw [hstep, ih]
    by_cases hc : c = '\n'
    · subst hc
      simp [advance, behind, Int.add_assoc]
    · simp [advance, behind, hc, Int.add_assoc]

end Position

/-! ## Lexemes -/

namespace Lexeme

variable {c : Char} {cs : List Char} {l : Lexeme}

/-- A number is a part of what it is read from. -/
theorem prefix_number (h : number c cs = .ok l) : l.tail <+: cs := by
  unfold number at h
  split at h
  next rest hrest =>
    split at h
    next => cases h
    next fraction hfraction =>
      cases h
      -- both the digits before the point and those behind it are cut off as they stand
      have hpoint : '.' :: rest.takeWhile Char.isDigit <+: cs.dropWhile Char.isDigit := by
        rw [hrest]
        exact List.cons_prefix_cons.2 ⟨rfl, List.takeWhile_prefix _⟩
      have happend := (List.prefix_append_right_inj (cs.takeWhile Char.isDigit)).2 hpoint
      rwa [List.takeWhile_append_dropWhile] at happend
  next =>
    cases h
    exact List.takeWhile_prefix _

/-- An operator or comment is a part of what it is read from. -/
theorem prefix_operator (h : operator c cs = .ok l) : l.tail <+: cs := by
  unfold operator at h
  split at h
  next rest =>
    cases h
    exact List.prefix_append ['&'] rest
  next rest =>
    cases h
    exact List.prefix_append ['|'] rest
  next rest =>
    cases h
    exact List.cons_prefix_cons.2 ⟨rfl, List.takeWhile_prefix _⟩
  next =>
    split at h
    next => cases h; exact List.nil_prefix
    next => cases h

/-- A lexeme is a part of what it is read from. -/
theorem prefix_read (h : read c cs = .ok l) : l.tail <+: cs := by
  unfold read at h
  split_ifs at h
  · exact prefix_number h
  · cases h
    exact List.takeWhile_prefix _
  · exact prefix_operator h

/-- A number is not a comment. -/
theorem kind_of_number (h : number c cs = .ok l) : l.kind = .number := by
  unfold number at h
  split at h
  · split at h <;> cases h
    rfl
  · cases h
    rfl

/-- A comment starts with two slashes. -/
theorem exists_of_comment (h : read c cs = .ok l) (hkind : l.kind = .comment) :
    c = '/' ∧ ∃ rest, l.tail = '/' :: rest := by
  unfold read at h
  split_ifs at h
  · rw [kind_of_number h] at hkind
    cases hkind
  · cases h
    -- a word is a name or a keyword
    rcases wordKind_eq (String.ofList (c :: cs.takeWhile isWordPart)) with hword | hword | hword <;>
      exact absurd (hword.symm.trans hkind) (by decide)
  · unfold operator at h
    split at h
    · cases h
      cases hkind
    · cases h
      cases hkind
    · cases h
      exact ⟨rfl, _, rfl⟩
    · split at h
      next kind hoperator =>
        cases h
        obtain rfl : kind = .comment := hkind
        exact absurd (symbol?_of_operatorKind? hoperator) (by simp [symbol?])
      next => cases h

/-- The token of a lexeme stands for the characters of the lexeme. -/
theorem written_text (h : read c cs = .ok l) (position : Option Position) :
    Token.written ⟨l.kind, l.text c, position⟩ = c :: l.tail := by
  unfold Token.written Token.isComment text
  by_cases hkind : l.kind = .comment
  · obtain ⟨rfl, rest, hrest⟩ := exists_of_comment h hkind
    simp [hkind, hrest]
  · simp [hkind]

end Lexeme

namespace Lexing

variable {c : Char} {cs : List Char} {p : Position}

/-! ## The split of a text -/

/-- A token and the blanks in front of it. -/
structure Placed where
  blanks : List Char
  token : Token
  isBlank : ∀ c ∈ blanks, Text.isBlank c = true

/-- The characters of a token and of the blanks in front of it. -/
def Placed.written (word : Placed) : List Char :=
  word.blanks ++ word.token.written

/-- The text `cs`, whose first character stands at `p`, is split up as its lexing `l` says: into the
tokens `words`, each behind blanks, then `blanks`, and a `rest` that starts where lexing ended. -/
structure Laid (p : Position) (cs : List Char) (l : Lexing) (words : List Placed)
    (blanks rest : List Char) : Prop where
  tokens : l.tokens = words.map (·.token)
  text : cs = words.flatMap Placed.written ++ blanks ++ rest
  isBlank : ∀ c ∈ blanks, Text.isBlank c = true
  position : ∀ before word after, words = before ++ word :: after →
    word.token.position = some (p.after (before.flatMap Placed.written ++ word.blanks))
  ending : l.ending.token.position = some (p.after (words.flatMap Placed.written ++ blanks))
  rest_eq_nil_iff : l.ending.token.kind = .endOfInput ↔ rest = []

/-- Blanks are stepped over. -/
theorem scan_blanks {ws : List Char} (hws : ∀ c ∈ ws, Text.isBlank c = true) (p : Position)
    (cs : List Char) : scan 0 p (ws ++ cs) = scan 0 (p.after ws) cs := by
  induction ws generalizing p with
  | nil => rfl
  | cons w ws ih =>
    rw [List.cons_append, scan_blank (hws w List.mem_cons_self)]
    exact ih (fun c hc => hws c (List.mem_cons_of_mem _ hc)) (p.advance w)

/-- A lexeme becomes a token, and lexing goes on behind it. -/
theorem scan_lexeme {l : Lexeme} {rest : List Char} (hblank : Text.isBlank c = false)
    (hread : Lexeme.read c (l.tail ++ rest) = .ok l) (p : Position) :
    scan 0 p (c :: (l.tail ++ rest))
      = (scan 0 (p.after (c :: l.tail)) rest).cons ⟨l.kind, l.text c, some p⟩ := by
  rw [scan, if_neg (by simp [hblank]), hread]
  simp only [scan_append]
  rfl

/-- A token in front of what is laid out is laid out too. -/
theorem Laid.cons {l : Lexing} {words : List Placed} {blanks rest : List Char} {word : Placed}
    (hword : word.token.position = some (p.after word.blanks))
    (h : Laid (p.after word.written) cs l words blanks rest) :
    Laid p (word.written ++ cs) (l.cons word.token) (word :: words) blanks rest where
  tokens := by rw [Lexing.cons, h.tokens, List.map_cons]
  text := by
    rw [List.flatMap_cons, List.append_assoc, List.append_assoc, ← List.append_assoc _ blanks,
      ← h.text]
  isBlank := h.isBlank
  position := by
    intro before other after hsplit
    cases before with
    | nil =>
      obtain ⟨rfl, -⟩ := List.cons.inj hsplit
      exact hword
    | cons first before =>
      obtain ⟨rfl, htail⟩ := List.cons.inj hsplit
      rw [h.position before other after htail, List.flatMap_cons, List.append_assoc,
        after_append p word.written]
  ending := by
    show l.ending.token.position = _
    rw [h.ending, List.flatMap_cons, List.append_assoc, after_append p word.written]
  rest_eq_nil_iff := h.rest_eq_nil_iff

/-- A text starts with blanks, and behind them it is empty or goes on with another character. -/
theorem exists_blanks (cs : List Char) :
    ∃ ws tail, cs = ws ++ tail ∧ (∀ c ∈ ws, Text.isBlank c = true) ∧
      ∀ c, tail.head? = some c → Text.isBlank c = false := by
  refine ⟨cs.takeWhile Text.isBlank, cs.dropWhile Text.isBlank,
    List.takeWhile_append_dropWhile.symm, fun c hc => List.mem_takeWhile_imp hc, ?_⟩
  intro c hc
  have hhead := List.head?_dropWhile_not Text.isBlank cs
  rw [hc] at hhead
  exact hhead

/-- Every text is split up as its lexing says. -/
theorem exists_laid (p : Position) (cs : List Char) :
    ∃ words blanks rest, Laid p cs (scan 0 p cs) words blanks rest := by
  -- on the length of the text: each token takes at least its first character
  induction hlength : cs.length using Nat.strong_induction_on generalizing p cs with
  | h n ih =>
    obtain ⟨ws, tail, rfl, hws, hhead⟩ := exists_blanks cs
    rw [scan_blanks hws]
    cases tail with
    | nil => exact ⟨[], ws, [], rfl, rfl, hws, by simp, rfl, fun _ => rfl, fun _ => rfl⟩
    | cons c tail =>
      have hc : Text.isBlank c = false := hhead c rfl
      cases hread : Lexeme.read c tail with
      | error e =>
        -- lexing ends at `c`, which nothing is read from
        have hscan : scan 0 (p.after ws) (c :: tail) = ⟨[], .failure e (p.after ws)⟩ := by
          rw [scan, if_neg (by simp [hc]), hread]
        rw [hscan]
        exact ⟨[], ws, c :: tail, rfl, rfl, hws, by simp, rfl, by simp [Ending.token]⟩
      | ok l =>
        obtain ⟨rest, rfl⟩ := Lexeme.prefix_read hread
        -- the lexeme behind the blanks is the first word, and the others are in what follows it
        let word : Placed := ⟨ws, ⟨l.kind, l.text c, some (p.after ws)⟩, hws⟩
        have hwritten : word.written = ws ++ c :: l.tail :=
          congrArg (ws ++ ·) (Lexeme.written_text hread _)
        have hshorter : rest.length < n := by
          simp only [List.length_append, List.length_cons] at hlength
          omega
        obtain ⟨words, blanks, last, h⟩ := ih rest.length hshorter (p.after word.written) rest rfl
        refine ⟨word :: words, blanks, last, ?_⟩
        have hword : word.token.position = some (p.after word.blanks) := rfl
        have hcons := h.cons hword
        rw [hwritten, List.append_assoc, List.cons_append] at hcons
        rw [scan_lexeme hc hread, ← after_append]
        exact hcons

/-- The tokens of a stream have positions. -/
theorem position_ne_none_of_mem_stream {p : Position} {cs : List Char} {t : Token}
    (ht : t ∈ (scan 0 p cs).stream) : t.position ≠ none := by
  obtain ⟨words, blanks, rest, h⟩ := exists_laid p cs
  rcases List.mem_append.1 ht with hmem | hmem
  · rw [h.tokens] at hmem
    obtain ⟨word, hword, rfl⟩ := List.mem_map.1 hmem
    obtain ⟨before, after, hsplit⟩ := List.append_of_mem hword
    rw [h.position before word after hsplit]
    exact Option.some_ne_none _
  · obtain rfl := List.mem_singleton.1 hmem
    rw [h.ending]
    exact Option.some_ne_none _

/-- The last token of a stream ends it. -/
theorem exists_isTerminal_stream (l : Lexing) : ∃ t ∈ l.stream, t.isTerminal = true := by
  refine ⟨l.ending.token, List.mem_append_right _ List.mem_cons_self, ?_⟩
  cases l.ending <;> rfl

/-- Lexing loses nothing and counts right. The bytes of a source are read as characters, one
replacement character for each byte where no encoding starts. The stream of their tokens has one
token that ends it, the last one. The other tokens, each behind blanks, are the characters again up
to the first character of the last token, and nothing is left behind if that is the end of the
input. Every token stands at the line and column of its first character, the last one included. -/
theorem stream_placed (source : List UInt8) :
    Utf8.Decoded source (Utf8.decode source) ∧
      ∃ (words : List Placed) (last : Token) (blanks rest : List Char),
        (ofChars (Utf8.decode source)).stream = words.map (·.token) ++ [last] ∧
          (∀ word ∈ words, word.token.isTerminal = false) ∧ last.isTerminal = true ∧
            Utf8.decode source = words.flatMap Placed.written ++ blanks ++ rest ∧
              (∀ c ∈ blanks, Text.isBlank c = true) ∧
                (∀ before word after, words = before ++ word :: after → word.token.position
                  = some (Position.behind (before.flatMap Placed.written ++ word.blanks))) ∧
                  last.position
                      = some (Position.behind (words.flatMap Placed.written ++ blanks)) ∧
                    (last.kind = .endOfInput ↔ rest = []) := by
  refine ⟨Utf8.decoded_iff.2 rfl, ?_⟩
  obtain ⟨words, blanks, rest, h⟩ := exists_laid Position.start (Utf8.decode source)
  refine ⟨words, (ofChars (Utf8.decode source)).ending.token, blanks, rest, ?_, ?_, ?_, h.text,
    h.isBlank, ?_, ?_, h.rest_eq_nil_iff⟩
  · rw [stream]
    exact congrArg (· ++ _) h.tokens
  · intro word hword
    have hmem : word.token ∈ (ofChars (Utf8.decode source)).tokens := by
      rw [ofChars, h.tokens]
      exact List.mem_map_of_mem hword
    exact isTerminal_of_mem_scan hmem
  · cases (ofChars (Utf8.decode source)).ending <;> rfl
  · intro before word after hsplit
    rw [h.position before word after hsplit, Position.after_start]
  · rw [← Position.after_start]
    exact h.ending

end Lexing

end ScalarLang
