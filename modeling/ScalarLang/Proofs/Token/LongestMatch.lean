import ScalarLang.Proofs.Token.Placement

/-!
# The longest lexeme becomes a token

The lexical grammar says which characters can be a token: a numeral, a word, an operator of a table,
or a comment up to the end of its line. Where a token starts, the longest beginning of what is left
that can be a token becomes one, and the next token starts behind it and the blanks that follow.
Lexing fails where nothing can be a token, or where a point stands behind digits and no digit
behind the point. The module introduces:

* `Lexeme.Qualifies kind cs rest`: the characters `cs` can be a token of the kind in front of
  `rest`;
* `Lexeme.Longest kind cs text`: no longer beginning of `text` than `cs` can be a token;
* `Lexeme.Fails text`: no token can be read from `text`;
* `Lexing.TokenStart text n before rest`: the token number `n` of `text` starts behind `before`.

The main steps are `longest_of_read` and `fails_of_read`, for one token, and `TokenStart.scan` and
`exists_tokenStart`, for the way from one token to the next.
-/

namespace ScalarLang

namespace Lexeme

open Numeral

/-! ## The lexical grammar -/

/-- The keywords and their kinds. -/
def keywords : List (String × Token.Kind) :=
  [("int", .typeName), ("float", .typeName), ("bool", .typeName), ("true", .boolean),
    ("false", .boolean)]

/-- The kinds of words: that of a keyword, or that of names. -/
def IsKindOf (kind : Token.Kind) (word : String) : Prop :=
  (word, kind) ∈ keywords ∨ kind = .identifier ∧ word ∉ keywords.map Prod.fst

/-- The operators and their kinds. Two slashes are the beginning of a comment. -/
def operatorTable : List (List Char × Token.Kind) :=
  [(['+'], .plus), (['-'], .minus), (['*'], .times), (['/'], .divide), (['%'], .modulo),
    (['!'], .not), (['&', '&'], .and), (['|', '|'], .or), (['='], .assign), ([';'], .semicolon),
    (['/', '/'], .comment), (['('], .openParen), ([')'], .closeParen)]

/-- The characters can be a token of the kind in front of `rest`. -/
inductive Qualifies : Token.Kind → List Char → List Char → Prop
  | number {cs : List Char} (rest : List Char) (h : IsNumeral cs) : Qualifies .number cs rest
  | word {kind : Token.Kind} {c : Char} {cs : List Char} (rest : List Char)
      (hc : isWordStart c = true) (hcs : ∀ d ∈ cs, isWordPart d = true)
      (hkind : IsKindOf kind (String.ofList (c :: cs))) : Qualifies kind (c :: cs) rest
  | operator {kind : Token.Kind} {cs : List Char} (rest : List Char)
      (h : (cs, kind) ∈ operatorTable) : Qualifies kind cs rest
  /-- A comment takes the rest of its line. -/
  | comment {body rest : List Char} (hbody : '\n' ∉ body)
      (hrest : ∀ c, rest.head? = some c → c = '\n') : Qualifies .comment ('/' :: '/' :: body) rest

/-- `cs` is the longest beginning of `text` that can be a token, and it can be one of this kind. -/
structure Longest (kind : Token.Kind) (cs text : List Char) : Prop where
  qualifies : ∃ rest, text = cs ++ rest ∧ Qualifies kind cs rest
  longest : ∀ kind' cs' rest', text = cs' ++ rest' → Qualifies kind' cs' rest' →
    cs'.length ≤ cs.length

/-- The text starts with digits and a point, and no digit follows the point. -/
def DanglingPoint (text : List Char) : Prop :=
  ∃ digits rest, digits ≠ [] ∧ Digits digits ∧ text = digits ++ '.' :: rest ∧
    ∀ c, rest.head? = some c → c.isDigit = false

/-- No token can be read from the text. -/
def Fails (text : List Char) : Prop :=
  (∀ kind cs rest, text = cs ++ rest → ¬Qualifies kind cs rest) ∨ DanglingPoint text

variable {c : Char} {cs rest : List Char} {kind kind' : Token.Kind} {l : Lexeme}

/-! ## What the first character says -/

/-- The kinds of a word are what its kind is determined to be. -/
theorem isKindOf_iff {word : String} : IsKindOf kind word ↔ kind = wordKind word := by
  unfold IsKindOf wordKind keywords
  by_cases hint : word = "int"
  · subst hint
    simp
  by_cases hfloat : word = "float"
  · subst hfloat
    simp
  by_cases hbool : word = "bool"
  · subst hbool
    simp
  by_cases htrue : word = "true"
  · subst htrue
    simp
  by_cases hfalse : word = "false"
  · subst hfalse
    simp
  simp [hint, hfloat, hbool, htrue, hfalse]

/-- No operator has a digit or a letter in it. -/
theorem symbolic_of_mem_operatorTable (h : (cs, kind) ∈ operatorTable) (hc : c ∈ cs) :
    c.isDigit = false ∧ isWordStart c = false := by
  have hall : (operatorTable.all fun pair => pair.1.all fun d => !d.isDigit && !isWordStart d)
      = true := by
    decide +kernel
  have hsymbolic := List.all_eq_true.1 (List.all_eq_true.1 hall _ h) c hc
  simpa using hsymbolic

/-- A token that starts with a digit is a number. -/
theorem isNumeral_of_isDigit (hc : c.isDigit = true) (h : Qualifies kind (c :: cs) rest) :
    kind = .number ∧ IsNumeral (c :: cs) := by
  generalize htext : c :: cs = text at h
  cases h with
  | number rest h => exact ⟨rfl, h⟩
  | word rest hstart =>
    obtain ⟨rfl, -⟩ := List.cons.inj htext
    rw [isWordStart_of_isDigit hc] at hstart
    cases hstart
  | operator rest h =>
    subst htext
    rw [(symbolic_of_mem_operatorTable h List.mem_cons_self).1] at hc
    cases hc
  | comment =>
    obtain ⟨rfl, -⟩ := List.cons.inj htext
    exact absurd hc (by decide)

/-- A token that starts as a word is a word. -/
theorem isWord_of_isWordStart (hc : isWordStart c = true) (h : Qualifies kind (c :: cs) rest) :
    kind = wordKind (String.ofList (c :: cs)) ∧ ∀ d ∈ cs, isWordPart d = true := by
  generalize htext : c :: cs = text at h
  cases h with
  | number rest h =>
    subst htext
    obtain ⟨d, ds, hcons, hd⟩ := exists_cons_of_isNumeral h
    obtain ⟨rfl, -⟩ := List.cons.inj hcons
    rw [isWordStart_of_isDigit hd] at hc
    cases hc
  | word rest hstart hcs hkind =>
    obtain ⟨rfl, rfl⟩ := List.cons.inj htext
    exact ⟨isKindOf_iff.1 hkind, hcs⟩
  | operator rest h =>
    subst htext
    rw [(symbolic_of_mem_operatorTable h List.mem_cons_self).2] at hc
    cases hc
  | comment =>
    obtain ⟨rfl, -⟩ := List.cons.inj htext
    exact absurd hc (by decide +kernel)

/-- Any other token is an operator or a comment. -/
theorem mem_operatorTable_of_first (hdigit : c.isDigit = false) (hword : isWordStart c = false)
    (h : Qualifies kind (c :: cs) rest) :
    (c :: cs, kind) ∈ operatorTable ∨
      kind = .comment ∧ c = '/' ∧ ∃ body, cs = '/' :: body ∧ '\n' ∉ body := by
  generalize htext : c :: cs = text at h
  cases h with
  | number rest h =>
    subst htext
    obtain ⟨d, ds, hcons, hd⟩ := exists_cons_of_isNumeral h
    obtain ⟨rfl, -⟩ := List.cons.inj hcons
    rw [hdigit] at hd
    cases hd
  | word rest hstart =>
    obtain ⟨rfl, -⟩ := List.cons.inj htext
    rw [hword] at hstart
    cases hstart
  | operator rest h => exact .inl (htext ▸ h)
  | comment hbody =>
    obtain ⟨rfl, rfl⟩ := List.cons.inj htext
    exact .inr ⟨rfl, rfl, _, rfl, hbody⟩

/-- Every token has a first character. -/
theorem exists_cons_of_qualifies (h : Qualifies kind cs rest) : ∃ d ds, cs = d :: ds := by
  cases h with
  | number rest h =>
    obtain ⟨d, ds, hcons, -⟩ := exists_cons_of_isNumeral h
    exact ⟨d, ds, hcons⟩
  | word | comment => exact ⟨_, _, rfl⟩
  | operator rest h =>
    have hall : ∀ pair ∈ operatorTable, pair.1 ≠ [] := by decide
    exact List.exists_cons_of_ne_nil (hall _ h)

/-- The beginning of a text that can be a token has the first character of the text. -/
theorem exists_tail_of_qualifies {cs' rest' : List Char} (htext : c :: cs = cs' ++ rest')
    (h : Qualifies kind cs' rest') : ∃ tail, cs' = c :: tail ∧ cs = tail ++ rest' := by
  obtain ⟨d, ds, rfl⟩ := exists_cons_of_qualifies h
  obtain ⟨rfl, rfl⟩ := List.cons.inj htext
  exact ⟨ds, rfl, rfl⟩

/-- Characters of a class at the beginning of a text are among those that are taken from it. -/
theorem length_le_takeWhile {p : Char → Bool} {ds : List Char} (hds : ∀ d ∈ ds, p d = true)
    (rest : List Char) : ds.length ≤ ((ds ++ rest).takeWhile p).length := by
  rw [List.takeWhile_append_of_pos hds, List.length_append]
  exact Nat.le_add_right _ _

/-! ## Numbers -/

/-- What is read from a digit on, by what follows the digits. -/
theorem number_cases (c : Char) (cs : List Char) :
    (∃ e rest, number c cs = .error e ∧ cs.dropWhile Char.isDigit = '.' :: rest ∧
        rest.takeWhile Char.isDigit = []) ∨
      (∃ rest, number c cs = .ok ⟨.number,
            cs.takeWhile Char.isDigit ++ '.' :: rest.takeWhile Char.isDigit⟩ ∧
          cs.dropWhile Char.isDigit = '.' :: rest ∧ rest.takeWhile Char.isDigit ≠ []) ∨
        number c cs = .ok ⟨.number, cs.takeWhile Char.isDigit⟩ ∧
          ∀ rest, cs.dropWhile Char.isDigit ≠ '.' :: rest := by
  unfold number
  split
  next rest hrest =>
    split
    next hnil => exact .inl ⟨_, rest, rfl, hrest, hnil⟩
    next hne => exact .inr (.inl ⟨rest, rfl, hrest, hne⟩)
  next hnone => exact .inr (.inr ⟨rfl, hnone⟩)

/-- The digits at the beginning of a text, in front of a point. -/
theorem span_digits_point {ds : List Char} (hds : Digits ds) (rest : List Char) :
    (ds ++ '.' :: rest).takeWhile Char.isDigit = ds ∧
      (ds ++ '.' :: rest).dropWhile Char.isDigit = '.' :: rest := by
  have hpoint : Char.isDigit '.' = false := by decide
  rw [List.takeWhile_append_of_pos hds, List.dropWhile_append_of_pos hds,
    List.takeWhile_cons_of_neg (by simp [hpoint]), List.dropWhile_cons_of_neg (by simp [hpoint]),
    List.append_nil]
  exact ⟨rfl, rfl⟩

/-- A number is the longest numeral at its place. -/
theorem length_le_of_number {ds : List Char} (h : number c (ds ++ rest) = .ok l)
    (hds : IsNumeral (c :: ds)) : ds.length ≤ l.tail.length := by
  generalize htext : c :: ds = text at hds
  obtain ⟨hne, hwhole, hfraction⟩ := hds
  rename_i whole fraction
  obtain ⟨w, ws, rfl⟩ := List.exists_cons_of_ne_nil hne
  obtain ⟨-, hws⟩ := digits_cons.1 hwhole
  cases fraction with
  | nil =>
    -- without a point, the digits are among those that are read
    obtain ⟨rfl, rfl⟩ := List.cons.inj htext
    have hle := length_le_takeWhile hws rest
    rcases number_cases c (ds ++ rest) with
      ⟨e, -, herror, -⟩ | ⟨tail, hok, -⟩ | ⟨hok, -⟩
    · cases herror.symm.trans h
    · cases hok.symm.trans h
      rw [List.length_append]
      exact Nat.le_trans hle (Nat.le_add_right _ _)
    · cases hok.symm.trans h
      exact hle
  | cons f fs =>
    -- with a point, both runs of digits are
    obtain rfl : ds = ws ++ '.' :: f :: fs := (List.cons.inj htext).2
    rw [List.append_assoc, List.cons_append] at h
    obtain ⟨htake, hdrop⟩ := span_digits_point hws (f :: fs ++ rest)
    have hle := length_le_takeWhile hfraction rest
    rcases number_cases c (ws ++ '.' :: (f :: fs ++ rest)) with
      ⟨e, -, herror, -⟩ | ⟨tail, hok, hpoint, -⟩ | ⟨-, hnone⟩
    · cases herror.symm.trans h
    · cases hok.symm.trans h
      obtain ⟨-, rfl⟩ := List.cons.inj (hdrop.symm.trans hpoint)
      simp only [htake, List.length_append, List.length_cons] at hle ⊢
      omega
    · exact absurd hdrop (hnone _)

/-- A number is read unless a point dangles. -/
theorem danglingPoint_iff (hc : c.isDigit = true) :
    DanglingPoint (c :: cs) ↔ ∃ e, number c cs = .error e := by
  constructor
  · rintro ⟨digits, rest, hne, hdigits, htext, hrest⟩
    obtain ⟨d, ds, rfl⟩ := List.exists_cons_of_ne_nil hne
    obtain ⟨rfl, rfl⟩ := List.cons.inj htext
    obtain ⟨-, hdrop⟩ := span_digits_point (digits_cons.1 hdigits).2 rest
    have htake : rest.takeWhile Char.isDigit = [] := by
      cases rest with
      | nil => rfl
      | cons d rest => rw [List.takeWhile_cons_of_neg (by simp [hrest d rfl])]
    -- the digits end at the point, so only the case without digits behind it is left
    rcases number_cases c (ds ++ '.' :: rest) with
      ⟨e, -, herror, -⟩ | ⟨tail, -, hpoint, hdigit⟩ | ⟨-, hnone⟩
    · exact ⟨e, herror⟩
    · obtain ⟨-, rfl⟩ := List.cons.inj (hdrop.symm.trans hpoint)
      exact absurd htake hdigit
    · exact absurd hdrop (hnone _)
  · rintro ⟨e, he⟩
    rcases number_cases c cs with ⟨-, rest, -, hpoint, htake⟩ | ⟨_, hok, -⟩ | ⟨hok, -⟩
    · refine ⟨c :: cs.takeWhile Char.isDigit, rest, List.cons_ne_nil _ _,
        digits_cons.2 ⟨hc, fun d hd => List.mem_takeWhile_imp hd⟩, ?_, ?_⟩
      · rw [List.cons_append, ← hpoint, List.takeWhile_append_dropWhile]
      · intro d hd
        cases rest with
        | nil => cases hd
        | cons f rest =>
          cases hd
          rw [Bool.eq_false_iff]
          intro hdigit
          rw [List.takeWhile_cons_of_pos hdigit] at htake
          cases htake
    · cases he.symm.trans hok
    · cases he.symm.trans hok

/-! ## Operators and comments -/

/-- The entries of the table: operators of one character, and those of two. -/
theorem mem_operatorTable_iff {tail : List Char} :
    (c :: tail, kind) ∈ operatorTable ↔
      (operatorKind? c = some kind ∧ tail = []) ∨ (c = '&' ∧ tail = ['&'] ∧ kind = .and) ∨
        (c = '|' ∧ tail = ['|'] ∧ kind = .or) ∨ (c = '/' ∧ tail = ['/'] ∧ kind = .comment) := by
  constructor
  · intro h
    simp only [operatorTable, List.mem_cons, Prod.mk.injEq, List.cons.injEq, List.not_mem_nil,
      or_false] at h
    rcases h with ⟨⟨rfl, rfl⟩, rfl⟩ | ⟨⟨rfl, rfl⟩, rfl⟩ | ⟨⟨rfl, rfl⟩, rfl⟩ | ⟨⟨rfl, rfl⟩, rfl⟩ |
      ⟨⟨rfl, rfl⟩, rfl⟩ | ⟨⟨rfl, rfl⟩, rfl⟩ | ⟨⟨rfl, rfl⟩, rfl⟩ | ⟨⟨rfl, rfl⟩, rfl⟩ |
      ⟨⟨rfl, rfl⟩, rfl⟩ | ⟨⟨rfl, rfl⟩, rfl⟩ | ⟨⟨rfl, rfl⟩, rfl⟩ | ⟨⟨rfl, rfl⟩, rfl⟩ |
      ⟨⟨rfl, rfl⟩, rfl⟩ <;> decide
  · rintro (⟨h, rfl⟩ | ⟨rfl, rfl, rfl⟩ | ⟨rfl, rfl, rfl⟩ | ⟨rfl, rfl, rfl⟩)
    · unfold operatorKind? at h
      split at h <;> cases h <;> decide
    · decide
    · decide
    · decide

/-- An operator or comment that is read can be a token. -/
theorem qualifies_operator (h : operator c cs = .ok l) :
    ∃ rest, cs = l.tail ++ rest ∧ Qualifies l.kind (c :: l.tail) rest := by
  unfold operator at h
  -- two operators of two characters, comments, and the operators of one character
  split at h
  next rest =>
    cases h
    exact ⟨rest, rfl, .operator rest (by decide)⟩
  next rest =>
    cases h
    exact ⟨rest, rfl, .operator rest (by decide)⟩
  next rest =>
    cases h
    refine ⟨rest.dropWhile (· != '\n'), ?_, .comment ?_ ?_⟩
    · rw [List.cons_append, List.takeWhile_append_dropWhile]
    · intro hmem
      simpa using List.mem_takeWhile_imp hmem
    · intro d hd
      have hhead := List.head?_dropWhile_not (· != '\n') rest
      rw [hd] at hhead
      simpa using hhead
  next =>
    split at h
    next kind hkind =>
      cases h
      exact ⟨cs, rfl, .operator cs (mem_operatorTable_iff.2 (.inl ⟨hkind, rfl⟩))⟩
    next => cases h

/-- What is read where neither a number nor a word starts is the longest operator or comment, and
if nothing is read then there is none. -/
theorem length_le_of_operator {tail : List Char} (hdigit : c.isDigit = false)
    (hword : isWordStart c = false) (hcs : cs = tail ++ rest)
    (hqualifies : Qualifies kind (c :: tail) rest) :
    ∃ l, operator c cs = .ok l ∧ tail.length ≤ l.tail.length := by
  have hentry : (operatorKind? c = some kind ∧ tail = []) ∨ (c = '&' ∧ tail = ['&']) ∨
      (c = '|' ∧ tail = ['|']) ∨ (c = '/' ∧ ∃ body, tail = '/' :: body ∧ '\n' ∉ body) := by
    rcases mem_operatorTable_of_first hdigit hword hqualifies with hmem | ⟨-, rfl, body, rfl, hbody⟩
    · rcases mem_operatorTable_iff.1 hmem with h | ⟨rfl, rfl, -⟩ | ⟨rfl, rfl, -⟩ | ⟨rfl, rfl, -⟩
      · exact .inl h
      · exact .inr (.inl ⟨rfl, rfl⟩)
      · exact .inr (.inr (.inl ⟨rfl, rfl⟩))
      · exact .inr (.inr (.inr ⟨rfl, [], rfl, List.not_mem_nil⟩))
    · exact .inr (.inr (.inr ⟨rfl, body, rfl, hbody⟩))
  rcases hentry with ⟨hkind, rfl⟩ | ⟨rfl, rfl⟩ | ⟨rfl, rfl⟩ | ⟨rfl, body, rfl, hbody⟩
  · -- whatever is read is at least as long as an operator of one character
    have hread : ∃ l, operator c cs = .ok l := by
      unfold operator
      split
      · exact ⟨_, rfl⟩
      · exact ⟨_, rfl⟩
      · exact ⟨_, rfl⟩
      · rw [hkind]
        exact ⟨_, rfl⟩
    obtain ⟨l, hl⟩ := hread
    exact ⟨l, hl, Nat.zero_le _⟩
  · subst hcs
    exact ⟨_, rfl, Nat.le_refl _⟩
  · subst hcs
    exact ⟨_, rfl, Nat.le_refl _⟩
  · subst hcs
    refine ⟨_, rfl, Nat.succ_le_succ (length_le_takeWhile ?_ rest)⟩
    intro d hd
    simp only [bne_iff_ne, ne_eq]
    rintro rfl
    exact hbody hd

/-! ## One token -/

/-- What is spelled as a kind says can be a token. -/
theorem qualifies_of_spelled (h : Spelled kind cs) (rest : List Char) : Qualifies kind cs rest := by
  cases h with
  | number h => exact .number rest h
  | word hc hcs => exact .word rest hc hcs (isKindOf_iff.2 rfl)
  | symbol h =>
    refine .operator rest ?_
    cases kind <;> cases h <;> decide

/-- A lexeme that is read can be a token. -/
theorem qualifies_read (h : read c cs = .ok l) :
    ∃ rest, cs = l.tail ++ rest ∧ Qualifies l.kind (c :: l.tail) rest := by
  rcases spelled_read h with hcomment | hspelled
  · -- only operators may be comments
    unfold read at h
    split_ifs at h with hdigit hword
    · cases (kind_of_number h).symm.trans hcomment
    · cases h
      rcases wordKind_eq (String.ofList (c :: cs.takeWhile isWordPart)) with hkind | hkind | hkind
        <;> cases hkind.symm.trans hcomment
    · exact qualifies_operator h
  · obtain ⟨rest, hrest⟩ := prefix_read h
    exact ⟨rest, hrest.symm, qualifies_of_spelled hspelled rest⟩

/-- Where a beginning of a text can be a token, a lexeme is read that is at least as long, unless a
point dangles. -/
theorem exists_read_of_qualifies {tail : List Char} (hpoint : ¬DanglingPoint (c :: cs))
    (hcs : cs = tail ++ rest) (h : Qualifies kind (c :: tail) rest) :
    ∃ l, read c cs = .ok l ∧ tail.length ≤ l.tail.length := by
  by_cases hdigit : c.isDigit = true
  · rw [read, if_pos hdigit]
    cases hnumber : number c cs with
    | error e => exact absurd ((danglingPoint_iff hdigit).2 ⟨e, hnumber⟩) hpoint
    | ok l =>
      subst hcs
      exact ⟨l, rfl, length_le_of_number hnumber (isNumeral_of_isDigit hdigit h).2⟩
  rw [read, if_neg hdigit]
  by_cases hword : isWordStart c = true
  · rw [if_pos hword]
    subst hcs
    exact ⟨_, rfl, length_le_takeWhile (isWord_of_isWordStart hword h).2 rest⟩
  rw [if_neg hword]
  exact length_le_of_operator (by simpa using hdigit) (by simpa using hword) hcs h

/-- A lexeme is read exactly if it does not fail. -/
theorem fails_iff : Fails (c :: cs) ↔ ∃ e, read c cs = .error e := by
  constructor
  · intro h
    cases hread : read c cs with
    | error e => exact ⟨e, rfl⟩
    | ok l =>
      rcases h with hnone | hpoint
      · obtain ⟨rest, hrest, hqualifies⟩ := qualifies_read hread
        exact absurd hqualifies (hnone _ _ _ (congrArg (c :: ·) hrest))
      · -- a dangling point comes behind a digit, and there a number would be read
        have hdigit : c.isDigit = true := by
          obtain ⟨digits, rest, hne, hdigits, htext, -⟩ := hpoint
          obtain ⟨d, ds, rfl⟩ := List.exists_cons_of_ne_nil hne
          obtain ⟨rfl, -⟩ := List.cons.inj htext
          exact (digits_cons.1 hdigits).1
        obtain ⟨e, he⟩ := (danglingPoint_iff hdigit).1 hpoint
        rw [read, if_pos hdigit, he] at hread
        cases hread
  · rintro ⟨e, he⟩
    by_cases hpoint : DanglingPoint (c :: cs)
    · exact .inr hpoint
    · refine .inl fun kind cs' rest htext hqualifies => ?_
      obtain ⟨tail, rfl, hcs⟩ := exists_tail_of_qualifies htext hqualifies
      obtain ⟨l, hl, -⟩ := exists_read_of_qualifies hpoint hcs hqualifies
      cases he.symm.trans hl

/-- The lexeme that is read is the longest. -/
theorem longest_of_read (h : read c cs = .ok l) : Longest l.kind (c :: l.tail) (c :: cs) := by
  have hpoint : ¬DanglingPoint (c :: cs) := by
    intro hpoint
    obtain ⟨e, he⟩ := fails_iff.1 (.inr hpoint)
    cases he.symm.trans h
  constructor
  · obtain ⟨rest, hrest, hqualifies⟩ := qualifies_read h
    exact ⟨rest, congrArg (c :: ·) hrest, hqualifies⟩
  · intro kind' cs' rest' htext hqualifies
    obtain ⟨tail, rfl, hcs⟩ := exists_tail_of_qualifies htext hqualifies
    obtain ⟨l', hl', hle⟩ := exists_read_of_qualifies hpoint hcs hqualifies
    cases hl'.symm.trans h
    exact Nat.succ_le_succ hle

/-- The characters of a token determine its kind. -/
theorem kind_unique (h : Qualifies kind cs rest) {rest' : List Char}
    (h' : Qualifies kind' cs rest') : kind = kind' := by
  obtain ⟨c, tail, rfl⟩ := exists_cons_of_qualifies h
  by_cases hdigit : c.isDigit = true
  · rw [(isNumeral_of_isDigit hdigit h).1, (isNumeral_of_isDigit hdigit h').1]
  by_cases hword : isWordStart c = true
  · rw [(isWord_of_isWordStart hword h).1, (isWord_of_isWordStart hword h').1]
  have hdigit : c.isDigit = false := by simpa using hdigit
  have hword : isWordStart c = false := by simpa using hword
  -- the table has the beginning of comments, too
  have hcomment {kind : Token.Kind} {body : List Char}
      (hmem : ('/' :: '/' :: body, kind) ∈ operatorTable) : kind = .comment := by
    rcases mem_operatorTable_iff.1 hmem with ⟨-, ⟨⟩⟩ | ⟨⟨⟩, -⟩ | ⟨⟨⟩, -⟩ | ⟨-, -, rfl⟩
    rfl
  rcases mem_operatorTable_of_first hdigit hword h with hmem | ⟨rfl, rfl, body, rfl, -⟩
  · rcases mem_operatorTable_of_first hdigit hword h' with hmem' | ⟨rfl, rfl, body, rfl, -⟩
    · have hall : ∀ pair ∈ operatorTable, ∀ other ∈ operatorTable,
          pair.1 = other.1 → pair.2 = other.2 := by decide
      exact hall _ hmem _ hmem' rfl
    · exact hcomment hmem
  · rcases mem_operatorTable_of_first hdigit hword h' with hmem' | ⟨rfl, -⟩
    · exact (hcomment hmem').symm
    · rfl

/-- There is one longest lexeme, and it has one kind. -/
theorem Longest.unique {cs' text : List Char} (h : Longest kind cs text)
    (h' : Longest kind' cs' text) : kind = kind' ∧ cs = cs' := by
  obtain ⟨rest, htext, hqualifies⟩ := h.qualifies
  obtain ⟨rest', htext', hqualifies'⟩ := h'.qualifies
  have hlength : cs.length = cs'.length :=
    Nat.le_antisymm (h'.longest _ _ _ htext hqualifies) (h.longest _ _ _ htext' hqualifies')
  obtain ⟨rfl, -⟩ := List.append_inj (htext.symm.trans htext') hlength
  exact ⟨kind_unique hqualifies hqualifies', rfl⟩

/-- The longest lexeme is read, unless a point dangles. -/
theorem read_of_longest {tail : List Char} (h : Longest kind (c :: tail) (c :: cs))
    (hfails : ¬Fails (c :: cs)) : read c cs = .ok ⟨kind, tail⟩ := by
  cases hread : read c cs with
  | error e => exact absurd (fails_iff.2 ⟨e, hread⟩) hfails
  | ok l =>
    obtain ⟨rfl, hcons⟩ := h.unique (longest_of_read hread)
    obtain ⟨-, rfl⟩ := List.cons.inj hcons
    rfl

end Lexeme

/-! ## From token to token -/

/-- A token is determined by its kind, the characters that it stands for and its position. -/
theorem Token.eq_of_written {t u : Token} (hkind : t.kind = u.kind)
    (hwritten : t.written = u.written) (hposition : t.position = u.position) : t = u := by
  obtain ⟨kind, text, position⟩ := t
  obtain ⟨kind', text', position'⟩ := u
  obtain rfl : kind = kind' := hkind
  obtain rfl : position = position' := hposition
  have htext : text.toList = text'.toList := by
    unfold Token.written Token.isComment at hwritten
    split_ifs at hwritten
    · exact (List.cons.inj (List.cons.inj hwritten).2).2
    · exact hwritten
  rw [String.toList_inj.1 htext]

namespace Lexing

open Lexeme

variable {text before rest : List Char} {n : Nat}

/-- The token number `n` of the text starts behind `before`, where `rest` is left. Tokens follow
each other with nothing but blanks between them, each the longest lexeme at its place. -/
inductive TokenStart : List Char → Nat → List Char → List Char → Prop
  | here {ws rest : List Char} {c : Char} (hws : ∀ d ∈ ws, Text.isBlank d = true)
      (hc : Text.isBlank c = false) : TokenStart (ws ++ c :: rest) 0 ws (c :: rest)
  | behind {ws cs tail before rest : List Char} {c : Char} {kind : Token.Kind} {n : Nat}
      (hws : ∀ d ∈ ws, Text.isBlank d = true) (hc : Text.isBlank c = false)
      (hlongest : Longest kind (c :: cs) (c :: (cs ++ tail))) (hfails : ¬Fails (c :: (cs ++ tail)))
      (hrest : TokenStart tail n before rest) :
      TokenStart (ws ++ c :: (cs ++ tail)) (n + 1) (ws ++ (c :: cs ++ before)) rest

/-- What is left where a token starts. -/
theorem TokenStart.exists_cons (h : TokenStart text n before rest) :
    ∃ c cs, rest = c :: cs ∧ Text.isBlank c = false := by
  induction h with
  | here hws hc => exact ⟨_, _, rfl, hc⟩
  | behind _ _ _ _ _ ih => exact ih

/-- Lexing goes on where the next token starts, with the tokens before it. -/
theorem TokenStart.scan (h : TokenStart text n before rest) (p : Position) :
    ∃ ts : List Token, ts.length = n ∧
      Lexing.scan 0 p text = (Lexing.scan 0 (p.after before) rest).prepend ts := by
  induction h generalizing p with
  | here hws hc => exact ⟨[], rfl, scan_blanks hws p _⟩
  | @behind ws cs tail before rest c kind n hws hc hlongest hfails hrest ih =>
    obtain ⟨ts, hlength, hscan⟩ := ih ((p.after ws).after (c :: cs))
    have hread : read c (cs ++ tail) = .ok ⟨kind, cs⟩ := read_of_longest hlongest hfails
    let l : Lexeme := ⟨kind, cs⟩
    refine ⟨⟨kind, l.text c, some (p.after ws)⟩ :: ts, congrArg (· + 1) hlength, ?_⟩
    rw [scan_blanks hws, scan_lexeme (l := l) hc hread, hscan, after_append, after_append]
    rfl

/-- Where nothing can be read lexing ends. -/
theorem TokenStart.ending (h : TokenStart text n before rest) (hfails : Fails rest) (p : Position) :
    ∃ e, (Lexing.scan 0 p text).ending = .failure e (p.after before) := by
  obtain ⟨ts, -, hscan⟩ := h.scan p
  obtain ⟨c, cs, rfl, hc⟩ := h.exists_cons
  obtain ⟨e, he⟩ := fails_iff.1 hfails
  refine ⟨e, ?_⟩
  rw [hscan, Lexing.scan, if_neg (by simp [hc]), he]
  rfl

/-- Elsewhere the longest lexeme becomes a token. -/
theorem TokenStart.getElem? (h : TokenStart text n before rest) {t : Token}
    (hfails : ¬Fails rest) (ht : Longest t.kind t.written rest) (p : Position)
    (hposition : t.position = some (p.after before)) :
    (Lexing.scan 0 p text).tokens[n]? = some t := by
  obtain ⟨ts, rfl, hscan⟩ := h.scan p
  obtain ⟨c, cs, rfl, hc⟩ := h.exists_cons
  cases hread : read c cs with
  | error e => exact absurd (fails_iff.2 ⟨e, hread⟩) hfails
  | ok l =>
    -- the token of the lexeme that is read is the one that the grammar asks for
    have hwritten := written_text hread (some (p.after before))
    obtain ⟨hkind, htext⟩ := ht.unique (longest_of_read hread)
    have htoken : t = ⟨l.kind, l.text c, some (p.after before)⟩ :=
      Token.eq_of_written hkind (htext.trans hwritten.symm) hposition
    obtain ⟨more, rfl⟩ := prefix_read hread
    rw [hscan, scan_lexeme hc hread, ← htoken]
    show (ts ++ t :: _)[ts.length]? = some t
    rw [List.getElem?_append_right (Nat.le_refl _), Nat.sub_self]
    rfl

/-- Whatever lexing delivers belongs to the start of a token. -/
theorem exists_tokenStart (p : Position) (text : List Char) :
    (∀ n t, (Lexing.scan 0 p text).tokens[n]? = some t →
        ∃ before rest, TokenStart text n before rest ∧ ¬Fails rest ∧
          Longest t.kind t.written rest ∧ t.position = some (p.after before)) ∧
      ∀ e q, (Lexing.scan 0 p text).ending = .failure e q →
        ∃ n before rest, TokenStart text n before rest ∧ Fails rest ∧ q = p.after before := by
  -- on the length of the text: each token takes at least its first character
  induction hlength : text.length using Nat.strong_induction_on generalizing p text with
  | h length ih =>
    obtain ⟨ws, tail, rfl, hws, hhead⟩ := exists_blanks text
    rw [scan_blanks hws]
    cases tail with
    | nil => simp [Lexing.scan]
    | cons c tail =>
      have hc : Text.isBlank c = false := hhead c rfl
      have hhere : TokenStart (ws ++ c :: tail) 0 ws (c :: tail) := .here hws hc
      cases hread : read c tail with
      | error e =>
        have hscan : Lexing.scan 0 (p.after ws) (c :: tail) = ⟨[], .failure e (p.after ws)⟩ := by
          rw [Lexing.scan, if_neg (by simp [hc]), hread]
        rw [hscan]
        refine ⟨fun n t ht => by simp at ht, ?_⟩
        rintro _ _ ⟨⟩
        exact ⟨0, ws, c :: tail, hhere, fails_iff.2 ⟨e, hread⟩, rfl⟩
      | ok l =>
        have hlongest := longest_of_read hread
        have hfails : ¬Fails (c :: tail) := by
          intro hfails
          obtain ⟨e, he⟩ := fails_iff.1 hfails
          cases he.symm.trans hread
        have hwritten := written_text hread (some (p.after ws))
        obtain ⟨more, rfl⟩ := prefix_read hread
        have hshorter : more.length < length := by
          simp only [List.length_append, List.length_cons] at hlength
          omega
        obtain ⟨htokens, hending⟩ :=
          ih more.length hshorter ((p.after ws).after (c :: l.tail)) more rfl
        -- the starts in what is left are the later starts of the text
        have hbehind {n : Nat} {before rest : List Char} (h : TokenStart more n before rest) :=
          TokenStart.behind hws hc hlongest hfails h
        have hafter (before : List Char) : ((p.after ws).after (c :: l.tail)).after before
            = p.after (ws ++ (c :: l.tail ++ before)) := by
          rw [after_append, after_append]
        rw [scan_lexeme hc hread]
        constructor
        · intro n t ht
          cases n with
          | zero =>
            cases ht
            exact ⟨ws, _, hhere, hfails, hwritten ▸ hlongest, rfl⟩
          | succ n =>
            obtain ⟨before, rest, hstart, hrest, ht', hposition⟩ := htokens n t ht
            exact ⟨_, rest, hbehind hstart, hrest, ht', hafter before ▸ hposition⟩
        · intro e q hq
          obtain ⟨n, before, rest, hstart, hrest, rfl⟩ := hending e q hq
          exact ⟨n + 1, _, rest, hbehind hstart, hrest, hafter before⟩

/-- The tokens of a stream other than the last one are its tokens in order. -/
theorem getElem?_stream_iff {p : Position} {t : Token} :
    ((Lexing.scan 0 p text).stream[n]? = some t ∧ t.isTerminal = false) ↔
      (Lexing.scan 0 p text).tokens[n]? = some t := by
  constructor
  · rintro ⟨ht, hterminal⟩
    by_cases hn : n < (Lexing.scan 0 p text).tokens.length
    · rwa [stream, List.getElem?_append_left hn] at ht
    · -- behind the tokens there is only the one that ends the stream
      rw [stream, List.getElem?_append_right (Nat.le_of_not_lt hn)] at ht
      obtain rfl := List.mem_singleton.1 (List.mem_of_getElem? ht)
      cases hending : (Lexing.scan 0 p text).ending <;> rw [hending] at hterminal <;>
        cases hterminal
  · intro ht
    have hn : n < (Lexing.scan 0 p text).tokens.length :=
      (List.getElem?_eq_some_iff.1 ht).1
    refine ⟨?_, isTerminal_of_mem_scan (List.mem_of_getElem? ht)⟩
    rwa [stream, List.getElem?_append_left hn]

/-- The lexer is the longest-match tokenizer of the lexical grammar. For every source, the token
number `n` of the stream, unless it ends the stream, is the longest beginning that can be a token of
what is left where the token number `n` starts, with the kind that the grammar gives it, and it
stands there. The stream ends in an error exactly if at some start nothing can be a token or a point
dangles behind digits, and the error stands at that start. -/
theorem stream_longest (source : List UInt8) :
    (∀ n t, ((ofChars (Utf8.decode source)).stream[n]? = some t ∧ t.isTerminal = false) ↔
        ∃ before rest, TokenStart (Utf8.decode source) n before rest ∧ ¬Fails rest ∧
          Longest t.kind t.written rest ∧ t.position = some (Position.behind before)) ∧
      ∀ q, (∃ t, (ofChars (Utf8.decode source)).stream.getLast? = some t ∧ t.kind = .error ∧
          t.position = some q) ↔
        ∃ n before rest, TokenStart (Utf8.decode source) n before rest ∧ Fails rest ∧
          q = Position.behind before := by
  have hstart := exists_tokenStart Position.start (Utf8.decode source)
  simp only [Position.after_start] at hstart
  constructor
  · intro n t
    rw [ofChars, getElem?_stream_iff]
    constructor
    · exact hstart.1 n t
    · rintro ⟨before, rest, h, hfails, ht, hposition⟩
      exact h.getElem? hfails ht _ (by rw [Position.after_start, hposition])
  · intro q
    rw [stream, List.getLast?_concat]
    constructor
    · rintro ⟨t, ⟨⟩, hkind, hposition⟩
      cases hending : (ofChars (Utf8.decode source)).ending with
      | endOfInput position =>
        rw [hending] at hkind
        cases hkind
      | failure e position =>
        rw [hending] at hposition
        cases hposition
        exact hstart.2 e q hending
    · rintro ⟨n, before, rest, h, hfails, rfl⟩
      obtain ⟨e, he⟩ := h.ending hfails Position.start
      refine ⟨_, rfl, ?_⟩
      rw [ofChars, he, Position.after_start]
      exact ⟨rfl, rfl⟩

end Lexing

end ScalarLang
