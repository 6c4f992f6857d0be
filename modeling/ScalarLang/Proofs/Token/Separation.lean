import ScalarLang.Proofs.Token.LongestMatch

/-!
# Where lexemes end

A space or a line feed is in no lexeme but a comment, and a line feed is not in a comment either. So
what stands before such a character is read as if the source ended there, unless it is a comment
that goes on behind a space. The module introduces:

* `Lexeme.Unclosed c cs`: the source is a comment up to its end.

What is behind a separator has no part in what is before it (`read_append_separator`). In front of a
word a lexeme ends, or it is a longer word, or it is a comment (`read_append_word`).
-/

namespace ScalarLang.Lexeme

variable {c d : Char} {cs : List Char}

/-- The comment that starts with `c` and goes on in `cs` is not ended by a line feed. -/
def Unclosed (c : Char) (cs : List Char) : Prop :=
  c = '/' ∧ ∃ tail, cs = '/' :: tail ∧ '\n' ∉ tail

/-- A class of characters goes no further than a character that is not in it. -/
theorem takeWhile_append_cons {p : Char → Bool} (hd : p d = false) (cs rest : List Char) :
    (cs ++ d :: rest).takeWhile p = cs.takeWhile p ∧
      (cs ++ d :: rest).dropWhile p = cs.dropWhile p ++ d :: rest := by
  induction cs with
  | nil => simp [hd]
  | cons c cs ih => by_cases hc : p c = true <;> simp [hc, ih.1, ih.2]

/-- A number ends before a separator. -/
theorem number_append_separator (hd : d = ' ' ∨ d = '\n') (c : Char) (cs rest : List Char) :
    number c (cs ++ d :: rest) = number c cs := by
  have hdigit : d.isDigit = false := by rcases hd with rfl | rfl <;> rfl
  have hpoint : d ≠ '.' := by rcases hd with rfl | rfl <;> decide
  obtain ⟨htake, hdrop⟩ := takeWhile_append_cons hdigit cs rest
  unfold number
  simp only [htake, hdrop]
  cases htail : cs.dropWhile Char.isDigit with
  | nil => simp [hpoint]
  | cons e es =>
    by_cases he : e = '.'
    · subst he
      simp only [List.cons_append, (takeWhile_append_cons hdigit es rest).1]
    · simp [he]

/-- A comment that ends before a separator is not changed by what is behind it. -/
theorem takeWhile_append_separator {tail : List Char} (hd : d = ' ' ∨ d = '\n')
    (h : d = ' ' → '\n' ∈ tail) (rest : List Char) :
    (tail ++ d :: rest).takeWhile (· != '\n') = tail.takeWhile (· != '\n') := by
  have hline (before after : List Char) :
      (before ++ '\n' :: after).takeWhile (· != '\n') = before.takeWhile (· != '\n') :=
    (takeWhile_append_cons (p := fun e => e != '\n') rfl before after).1
  rcases hd with rfl | rfl
  · -- the line feed that ends the comment comes first
    obtain ⟨before, after, rfl⟩ := List.append_of_mem (h rfl)
    rw [List.append_assoc, List.cons_append, hline, hline]
  · exact hline tail rest

/-- So does an operator, and a comment unless the separator is a space in it. -/
theorem operator_append_separator (hd : d = ' ' ∨ d = '\n') (h : d = ' ' → ¬Unclosed c cs)
    (rest : List Char) : operator c (cs ++ d :: rest) = operator c cs := by
  cases cs with
  | nil =>
    -- a separator is the second character of no operator
    have hne : d ≠ '&' ∧ d ≠ '|' ∧ d ≠ '/' := by rcases hd with rfl | rfl <;> decide
    simp [operator, hne]
  | cons e es =>
    by_cases hcomment : c = '/' ∧ e = '/'
    · obtain ⟨rfl, rfl⟩ := hcomment
      have hclosed : d = ' ' → '\n' ∈ es := by
        intro hspace
        by_contra hline
        exact h hspace ⟨rfl, es, rfl, hline⟩
      rw [List.cons_append, operator, operator, takeWhile_append_separator hd hclosed]
    · -- any other operator is decided by its first two characters
      unfold operator
      rw [List.cons_append]
      split <;> simp_all

/-- What stands before a separator is read as if the source ended there. -/
theorem read_append_separator (hd : d = ' ' ∨ d = '\n') (h : d = ' ' → ¬Unclosed c cs)
    (rest : List Char) : read c (cs ++ d :: rest) = read c cs := by
  have hpart : isWordPart d = false := by rcases hd with rfl | rfl <;> decide
  unfold read
  rw [number_append_separator hd, word, word, (takeWhile_append_cons hpart cs rest).1,
    operator_append_separator hd h]

/-- A comment that is not ended takes in all of the line that follows. -/
theorem read_of_unclosed {rest : List Char} (h : Unclosed c cs) (hrest : '\n' ∉ rest) :
    read c (cs ++ rest) = .ok ⟨.comment, cs ++ rest⟩ := by
  obtain ⟨rfl, tail, rfl, htail⟩ := h
  have hline : (tail ++ rest).takeWhile (· != '\n') = tail ++ rest := by
    rw [List.takeWhile_eq_self_iff]
    intro e he
    rcases List.mem_append.1 he with hmem | hmem
    · simpa using fun heq : e = '\n' => htail (heq ▸ hmem)
    · simpa using fun heq : e = '\n' => hrest (heq ▸ hmem)
  show operator '/' ('/' :: (tail ++ rest)) = _
  rw [operator, hline]
  rfl

/-- A token with a letter in it is a word or a comment. -/
theorem Qualifies.word_or_comment {kind : Token.Kind} {text rest : List Char}
    (h : Qualifies kind text rest) (hmem : d ∈ text) (hd : isWordStart d = true) :
    (∃ c cs, text = c :: cs ∧ isWordStart c = true ∧ ∀ e ∈ cs, isWordPart e = true) ∨
      ∃ body, text = '/' :: '/' :: body ∧ '\n' ∉ body ∧ ∀ e, rest.head? = some e → e = '\n' := by
  cases h with
  | number rest hnumeral =>
    obtain ⟨-, hwhole, hfraction⟩ := hnumeral
    exfalso
    rcases Numeral.mem_layout hwhole hfraction hmem with hdigit | rfl
    · exact Bool.false_ne_true ((isWordStart_of_isDigit hdigit).symm.trans hd)
    · exact absurd hd (by decide)
  | word rest hc hcs => exact .inl ⟨_, _, rfl, hc, hcs⟩
  | operator rest hoperator =>
    have hsymbolic := (symbolic_of_mem_operatorTable hoperator hmem).2
    exact absurd (hsymbolic.symm.trans hd) Bool.false_ne_true
  | comment hbody hend => exact .inr ⟨_, rfl, hbody, hend⟩

/-- A lexeme ends in front of a word or takes it in as the end of a longer word, unless the word is
in a comment. -/
theorem read_append_word {ds : List Char} {l : Lexeme} (hd : isWordStart d = true)
    (hds : ∀ e ∈ ds, isWordPart e = true) (h : read c (cs ++ d :: ds) = .ok l)
    (hclosed : ¬Unclosed c (cs ++ d :: ds)) :
    l.tail <+: cs ∨ l = ⟨wordKind (String.ofList (c :: cs ++ d :: ds)), cs ++ d :: ds⟩ := by
  obtain ⟨rest, hsplit, hqualifies⟩ := qualifies_read h
  rcases List.append_eq_append_iff.1 hsplit with ⟨_ | ⟨e, part⟩, htail, hrest⟩ | ⟨between, hcs, -⟩
  · exact .inl ⟨[], by rw [htail, List.append_nil, List.append_nil]⟩
  · -- the lexeme has the first character of the word in it
    rw [List.cons_append] at hrest
    obtain ⟨rfl, rfl⟩ := List.cons.inj hrest
    rcases hqualifies.word_or_comment (show d ∈ c :: l.tail by simp [htail]) hd with
      ⟨_, _, htext, hc, hcs⟩ | ⟨body, htext, hbody, hend⟩
    · -- and so it is a word, which goes on to the end
      obtain ⟨rfl, rfl⟩ := List.cons.inj htext
      have hword : ∀ e ∈ cs ++ d :: (part ++ rest), isWordPart e = true := by
        intro e he
        rw [hsplit] at he
        rcases List.mem_append.1 he with he | he
        · exact hcs e he
        · exact hds e (List.mem_append_right part he)
      have hread := read_of_word hc hword (show Stops [] from trivial)
      rw [List.append_nil, h] at hread
      exact .inr (Except.ok.inj hread)
    · -- a comment would go on to the end as well, since what is left would start with a line feed
      obtain rfl : rest = [] := by
        cases rest with
        | nil => rfl
        | cons e rest =>
          obtain rfl := hend e rfl
          exact absurd (hds '\n' (by simp)) (by decide)
      obtain ⟨rfl, htail'⟩ := List.cons.inj htext
      refine absurd ⟨rfl, body, ?_, hbody⟩ hclosed
      rw [hsplit, List.append_nil, htail']
  · exact .inl ⟨between, hcs.symm⟩

end ScalarLang.Lexeme
