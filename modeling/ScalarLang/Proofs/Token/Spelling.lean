import Mathlib.Tactic
import ScalarLang.Proofs.Number.Reading
import ScalarLang.Token.Lexer

/-!
# How tokens are spelled

Apart from comments, the kind of a token says which texts it can have: a numeral, a word, or the one
symbol of an operator. `Spelled kind cs` states this, and lexing goes both ways:

* `spelled_of_mem_scan`: each token of a source is spelled as its kind says.
* `scan_of_spelled`: a text that is spelled as a kind says is cut off as one token of that kind,
  in front of any character that cannot belong to it.
-/

namespace ScalarLang

namespace Lexeme

/-- The symbol of an operator. -/
def symbol? : Token.Kind → Option (List Char)
  | .plus => some ['+']
  | .minus => some ['-']
  | .times => some ['*']
  | .divide => some ['/']
  | .modulo => some ['%']
  | .not => some ['!']
  | .and => some ['&', '&']
  | .or => some ['|', '|']
  | .assign => some ['=']
  | .semicolon => some [';']
  | .openParen => some ['(']
  | .closeParen => some [')']
  | _ => none

/-- The texts of the tokens of a kind. -/
inductive Spelled : Token.Kind → List Char → Prop
  | number {cs : List Char} (h : Numeral.IsNumeral cs) : Spelled .number cs
  | word {c : Char} {cs : List Char} (hc : isWordStart c = true)
      (hcs : ∀ d ∈ cs, isWordPart d = true) : Spelled (wordKind (String.ofList (c :: cs))) (c :: cs)
  | symbol {kind : Token.Kind} {cs : List Char} (h : symbol? kind = some cs) : Spelled kind cs

variable {c : Char} {cs rest : List Char} {kind : Token.Kind} {l : Lexeme}

/-- A word, checked character by character. -/
theorem Spelled.of_all (hc : isWordStart c = true) (hcs : cs.all isWordPart = true) :
    Spelled (wordKind (String.ofList (c :: cs))) (c :: cs) :=
  .word hc (List.all_eq_true.1 hcs)

/-! ## Characters -/

/-- The code points of decimal digits. -/
theorem toNat_of_isDigit (h : c.isDigit = true) : 48 ≤ c.toNat ∧ c.toNat ≤ 57 := by
  simp only [Char.isDigit, Bool.and_eq_true, decide_eq_true_eq] at h
  exact h

/-- No word starts with a decimal digit. -/
theorem isWordStart_of_isDigit (h : c.isDigit = true) : isWordStart c = false := by
  have hc := toNat_of_isDigit h
  -- the digits come before the first range of letters
  have hletter : Text.isLetter c = false := by
    unfold Text.isLetter Text.letterRanges
    rw [Text.inRanges, decide_eq_false (by omega), Bool.false_and]
  have hne : c ≠ '_' := by
    rintro rfl
    exact absurd hc.2 (by decide)
  simp [isWordStart, hletter, hne]

/-- The code points of blanks, one by one. -/
def blanks : List Nat :=
  [9, 10, 11, 12, 13, 0x20, 0x85, 0xa0, 0x1680, 0x2000, 0x2001, 0x2002, 0x2003, 0x2004, 0x2005,
    0x2006, 0x2007, 0x2008, 0x2009, 0x200a, 0x2028, 0x2029, 0x202f, 0x205f, 0x3000]

/-- Only these code points are blanks. -/
theorem toNat_mem_blanks (h : Text.isBlank c = true) : c.toNat ∈ blanks := by
  simp only [Text.isBlank, Text.inRanges, Text.blankRanges, Bool.and_eq_true, decide_eq_true_eq,
    Bool.or_eq_true, Bool.false_eq_true, or_false] at h
  simp only [blanks, List.mem_cons, List.not_mem_nil, or_false]
  omega

/-- No number starts with a blank. -/
theorem isBlank_of_isDigit (h : c.isDigit = true) : Text.isBlank c = false := by
  have hc := toNat_of_isDigit h
  rw [Bool.eq_false_iff]
  intro hblank
  have hmem := toNat_mem_blanks hblank
  simp only [blanks, List.mem_cons, List.not_mem_nil, or_false] at hmem
  omega

/-- No word starts with a blank. -/
theorem isBlank_of_isWordStart (h : isWordStart c = true) : Text.isBlank c = false := by
  rw [Bool.eq_false_iff]
  intro hblank
  -- the table of letters is long, but there are few blanks to look up in it
  have hletters : ∀ n ∈ blanks, Text.inRanges n Text.letterRanges = false := by
    decide +kernel
  have hletter : Text.isLetter c = false := hletters _ (toNat_mem_blanks hblank)
  simp only [isWordStart, hletter, Bool.false_or, decide_eq_true_eq] at h
  subst h
  exact absurd hblank (by decide)

/-! ## Lexemes are spelled as their kind says -/

/-- The operators of one character have that character as their symbol. -/
theorem symbol?_of_operatorKind? (h : operatorKind? c = some kind) : symbol? kind = some [c] := by
  unfold operatorKind? at h
  split at h <;> cases h <;> rfl

/-- The lexeme of a number is a numeral. -/
theorem spelled_number (hc : c.isDigit = true) (h : number c cs = .ok l) :
    Spelled l.kind (c :: l.tail) := by
  have htake (cs : List Char) : Numeral.Digits (cs.takeWhile Char.isDigit) :=
    fun d hd => List.mem_takeWhile_imp hd
  have hwhole : Numeral.Digits (c :: cs.takeWhile Char.isDigit) :=
    Numeral.digits_cons.2 ⟨hc, htake cs⟩
  have hlayout {fraction : List Char} (hfraction : Numeral.Digits fraction) :=
    Spelled.number (.layout (List.cons_ne_nil _ _) hwhole hfraction)
  unfold number at h
  split at h
  next rest hrest =>
    have hspelled := hlayout (htake rest)
    split at h
    -- a point without a digit after it is refused
    · cases h
    next fraction hfraction =>
      cases h
      cases htake : rest.takeWhile Char.isDigit with
      | nil => exact absurd htake hfraction
      | cons d ds => rwa [htake] at hspelled
  next =>
    cases h
    exact hlayout fun d hd => absurd hd List.not_mem_nil

/-- The lexeme of an operator is its symbol. -/
theorem spelled_operator (h : operator c cs = .ok l) :
    l.kind = .comment ∨ Spelled l.kind (c :: l.tail) := by
  unfold operator at h
  split at h
  · cases h
    exact .inr (.symbol rfl)
  · cases h
    exact .inr (.symbol rfl)
  · cases h
    exact .inl rfl
  · split at h
    next kind hkind =>
      cases h
      exact .inr (.symbol (symbol?_of_operatorKind? hkind))
    next => cases h

/-- Every lexeme but a comment is spelled as its kind says. -/
theorem spelled_read (h : read c cs = .ok l) :
    l.kind = .comment ∨ Spelled l.kind (c :: l.tail) := by
  unfold read at h
  split_ifs at h with hdigit hword
  · exact .inr (spelled_number hdigit h)
  · cases h
    exact .inr (.word hword fun d hd => List.mem_takeWhile_imp hd)
  · exact spelled_operator h

/-! ## What is spelled as a kind says is a lexeme -/

/-- Whether a word or number ends before `cs`, and no comment starts there. -/
def Stops : List Char → Prop
  | [] => True
  | c :: _ => c = ' ' ∨ c = ')' ∨ c = ';'

/-- A class of characters stops where a text stops that has none of them. -/
theorem takeWhile_append_of_stops {p : Char → Bool} (hcs : ∀ d ∈ cs, p d = true)
    (hrest : Stops rest) (hp : p ' ' = false ∧ p ')' = false ∧ p ';' = false) :
    (cs ++ rest).takeWhile p = cs ∧ (cs ++ rest).dropWhile p = rest := by
  -- the class ends with `cs`: the next character, if there is one, is not in it
  have hhead : rest.takeWhile p = [] ∧ rest.dropWhile p = rest := by
    match rest, hrest with
    | [], _ => exact ⟨rfl, rfl⟩
    | d :: _, hd =>
      have hd : p d = false := by rcases hd with rfl | rfl | rfl <;> simp [hp]
      simp [hd]
  rw [List.takeWhile_append_of_pos hcs, List.dropWhile_append_of_pos hcs, hhead.1, hhead.2,
    List.append_nil]
  exact ⟨rfl, rfl⟩

/-- Digits are read as a number. -/
theorem number_of_digits (hcs : Numeral.Digits cs) (hrest : Stops rest) :
    number c (cs ++ rest) = .ok ⟨.number, cs⟩ := by
  obtain ⟨htake, hdrop⟩ := takeWhile_append_of_stops hcs hrest (by decide)
  rw [number, htake, hdrop]
  match rest, hrest with
  | [], _ => rfl
  | d :: rest, hd => rcases hd with rfl | rfl | rfl <;> rfl

/-- Digits, a point and digits are read as a number. -/
theorem number_of_fraction {fraction : List Char} (hcs : Numeral.Digits cs)
    (hne : fraction ≠ []) (hfraction : Numeral.Digits fraction) (hrest : Stops rest) :
    number c (cs ++ '.' :: fraction ++ rest) = .ok ⟨.number, cs ++ '.' :: fraction⟩ := by
  obtain ⟨htake, -⟩ := takeWhile_append_of_stops hfraction hrest (by decide)
  have hpoint : Char.isDigit '.' = false := by decide
  rw [number, List.append_assoc, List.takeWhile_append_of_pos hcs,
    List.dropWhile_append_of_pos hcs, List.cons_append,
    List.takeWhile_cons_of_neg (by simp [hpoint]),
    List.dropWhile_cons_of_neg (by simp [hpoint]), List.append_nil]
  obtain ⟨d, ds, rfl⟩ := List.exists_cons_of_ne_nil hne
  simp only [htake]

/-- A numeral is read as a number. -/
theorem read_of_isNumeral (h : Numeral.IsNumeral (c :: cs)) (hrest : Stops rest) :
    read c (cs ++ rest) = .ok ⟨.number, cs⟩ := by
  generalize htext : c :: cs = text at h
  obtain ⟨hne, hwhole, hfraction⟩ := h
  rename_i whole fraction
  obtain ⟨d, ds, rfl⟩ := List.exists_cons_of_ne_nil hne
  obtain ⟨hd, hds⟩ := Numeral.digits_cons.1 hwhole
  cases fraction with
  | nil =>
    obtain ⟨rfl, rfl⟩ := List.cons.inj htext
    rw [read, if_pos hd, number_of_digits hds hrest]
  | cons f fs =>
    obtain ⟨rfl, rfl⟩ := List.cons.inj htext
    rw [read, if_pos hd]
    exact number_of_fraction hds (List.cons_ne_nil _ _) hfraction hrest

/-- A word is read as a word. -/
theorem read_of_word (hc : isWordStart c = true) (hcs : ∀ d ∈ cs, isWordPart d = true)
    (hrest : Stops rest) :
    read c (cs ++ rest) = .ok ⟨wordKind (String.ofList (c :: cs)), cs⟩ := by
  have hdigit : c.isDigit = false := by
    rw [Bool.eq_false_iff]
    intro hdigit
    rw [isWordStart_of_isDigit hdigit] at hc
    cases hc
  rw [read, hdigit, hc, word, (takeWhile_append_of_stops hcs hrest (by decide)).1]
  rfl

/-- A symbol is read as its operator, unless it is a slash before another slash. -/
theorem read_of_symbol (h : symbol? kind = some (c :: cs)) (hrest : c = '/' → Stops rest) :
    read c (cs ++ rest) = .ok ⟨kind, cs⟩ := by
  have hfirst : c.isDigit = false ∧ isWordStart c = false := by
    cases kind <;> cases h <;> decide
  rw [read, hfirst.1, hfirst.2]
  cases kind with
  -- only a slash can be the beginning of something longer, a comment
  | divide =>
    cases h
    match rest, hrest rfl with
    | [], _ => rfl
    | d :: rest, hd => rcases hd with rfl | rfl | rfl <;> rfl
  | _ => cases h <;> rfl

/-- What is spelled as a kind says is read as that kind. -/
theorem read_of_spelled (h : Spelled kind (c :: cs)) (hrest : Stops rest) :
    read c (cs ++ rest) = .ok ⟨kind, cs⟩ := by
  generalize htext : c :: cs = text at h
  cases h with
  | number h => exact read_of_isNumeral (htext ▸ h) hrest
  | word hc hcs =>
    obtain ⟨rfl, rfl⟩ := List.cons.inj htext
    exact read_of_word hc hcs hrest
  | symbol h => exact read_of_symbol (htext ▸ h) fun _ => hrest

/-- A numeral starts with a digit. -/
theorem exists_cons_of_isNumeral (h : Numeral.IsNumeral cs) :
    ∃ d ds, cs = d :: ds ∧ d.isDigit = true := by
  obtain ⟨hne, hwhole, -⟩ := h
  rename_i whole fraction
  obtain ⟨d, ds, rfl⟩ := List.exists_cons_of_ne_nil hne
  obtain ⟨hd, -⟩ := Numeral.digits_cons.1 hwhole
  cases fraction <;> exact ⟨d, _, rfl, hd⟩

/-- What is spelled as a kind says starts with a character that is no blank. -/
theorem exists_cons_of_spelled (h : Spelled kind cs) :
    ∃ d ds, cs = d :: ds ∧ Text.isBlank d = false := by
  cases h with
  | number h =>
    obtain ⟨d, ds, rfl, hd⟩ := exists_cons_of_isNumeral h
    exact ⟨d, ds, rfl, isBlank_of_isDigit hd⟩
  | word hc hcs => exact ⟨_, _, rfl, isBlank_of_isWordStart hc⟩
  | symbol h => cases kind <;> cases h <;> exact ⟨_, _, rfl, by decide⟩

/-- A word is a name or a keyword. -/
theorem wordKind_eq (word : String) :
    wordKind word = .typeName ∨ wordKind word = .boolean ∨ wordKind word = .identifier := by
  unfold wordKind
  split_ifs <;> simp

/-- What a spelling says about its kind: a number, a name or keyword, or an operator. -/
theorem cases_of_spelled (h : Spelled kind cs) :
    (kind = .number ∧ Numeral.IsNumeral cs) ∨
      ((kind = .typeName ∨ kind = .boolean ∨ kind = .identifier) ∧
        wordKind (String.ofList cs) = kind) ∨
      symbol? kind = some cs := by
  cases h with
  | number h => exact .inl ⟨rfl, h⟩
  | word => exact .inr (.inl ⟨wordKind_eq _, rfl⟩)
  | symbol h => exact .inr (.inr h)

/-- Neither comments nor the tokens that end a stream are spelled in such a way. -/
theorem kind_of_spelled (h : Spelled kind cs) :
    kind ≠ .comment ∧ kind ≠ .error ∧ kind ≠ .endOfInput := by
  rcases cases_of_spelled h with ⟨rfl, -⟩ | ⟨rfl | rfl | rfl, -⟩ | h
  · decide
  · decide
  · decide
  · decide
  · refine ⟨?_, ?_, ?_⟩ <;> rintro rfl <;> cases h

/-- An operator is spelled in one way. -/
theorem eq_of_spelled {symbol : List Char} (h : Spelled kind cs)
    (hsymbol : symbol? kind = some symbol) : cs = symbol := by
  rcases cases_of_spelled h with ⟨rfl, -⟩ | ⟨rfl | rfl | rfl, -⟩ | h
  · cases hsymbol
  · cases hsymbol
  · cases hsymbol
  · cases hsymbol
  · exact Option.some.inj (h.symm.trans hsymbol)

/-- The text of an operator. -/
theorem text_of_spelled {text : String} {symbol : List Char} (h : Spelled kind text.toList)
    (hsymbol : symbol? kind = some symbol) : text = String.ofList symbol := by
  rw [← eq_of_spelled h hsymbol, String.ofList_toList]

/-- A number is spelled as a numeral. -/
theorem isNumeral_of_spelled (h : Spelled kind cs) (hkind : kind = .number) :
    Numeral.IsNumeral cs := by
  subst hkind
  rcases cases_of_spelled h with ⟨-, h⟩ | ⟨h, -⟩ | h
  · exact h
  · simp at h
  · cases h

/-- A keyword or name is spelled as a word of its kind. -/
theorem wordKind_of_spelled (h : Spelled kind cs)
    (hkind : kind = .typeName ∨ kind = .boolean ∨ kind = .identifier) :
    wordKind (String.ofList cs) = kind := by
  rcases cases_of_spelled h with ⟨rfl, -⟩ | ⟨-, h⟩ | h
  · simp at hkind
  · exact h
  · rcases hkind with rfl | rfl | rfl <;> cases h

end Lexeme

namespace Lexing

variable {c : Char} {cs rest : List Char} {kind : Token.Kind} {p : Position} {t : Token}

/-! ## Whole texts -/

/-- Puts tokens in front. -/
def prepend (ts : List Token) (l : Lexing) : Lexing :=
  { l with tokens := ts ++ l.tokens }

@[simp] theorem prepend_prepend (ts us : List Token) (l : Lexing) :
    (l.prepend us).prepend ts = l.prepend (ts ++ us) := by
  simp [prepend]

/-- Positions add up. -/
theorem after_append (p : Position) (cs ds : List Char) :
    p.after (cs ++ ds) = (p.after cs).after ds :=
  List.foldl_append

/-- Characters that have been read already are stepped over. -/
theorem scan_append (p : Position) (cs rest : List Char) :
    scan cs.length p (cs ++ rest) = scan 0 (p.after cs) rest := by
  induction cs generalizing p with
  | nil => rfl
  | cons c cs ih => exact ih (p.advance c)

/-- Blanks are stepped over. -/
theorem scan_blank (h : Text.isBlank c = true) (p : Position) (cs : List Char) :
    scan 0 p (c :: cs) = scan 0 (p.advance c) cs := by
  rw [scan, if_pos h]

/-- A lexeme other than a comment becomes a token. -/
theorem scan_of_read (hblank : Text.isBlank c = false)
    (hread : Lexeme.read c (cs ++ rest) = .ok ⟨kind, cs⟩) (hkind : kind ≠ .comment)
    (p : Position) :
    scan 0 p (c :: cs ++ rest)
      = (scan 0 (p.after (c :: cs)) rest).prepend [⟨kind, String.ofList (c :: cs), some p⟩] := by
  rw [List.cons_append, scan, if_neg (by simp [hblank]), hread]
  simp only [scan_append, Lexeme.text, if_neg hkind]
  rfl

/-- What is spelled as a kind says is cut off as one token of that kind. -/
theorem scan_of_spelled (h : Lexeme.Spelled kind cs) (hrest : Lexeme.Stops rest) (p : Position) :
    scan 0 p (cs ++ rest)
      = (scan 0 (p.after cs) rest).prepend [⟨kind, String.ofList cs, some p⟩] := by
  obtain ⟨d, ds, rfl, hblank⟩ := Lexeme.exists_cons_of_spelled h
  exact scan_of_read hblank (Lexeme.read_of_spelled h hrest) (Lexeme.kind_of_spelled h).1 p

/-- A token and the space behind it are cut off. -/
theorem scan_spelled_space (h : Lexeme.Spelled kind cs) (p : Position) (rest : List Char) :
    scan 0 p (cs ++ ' ' :: rest)
      = (scan 0 ((p.after cs).advance ' ') rest).prepend [⟨kind, String.ofList cs, some p⟩] := by
  have hstops : Lexeme.Stops (' ' :: rest) := .inl rfl
  rw [scan_of_spelled h hstops, scan_blank (by decide)]

/-- The position behind two texts with a space between them. -/
theorem after_space (p : Position) (cs ds : List Char) :
    p.after (cs ++ ' ' :: ds) = ((p.after cs).advance ' ').after ds := by
  rw [after_append]
  rfl

/-- A symbol other than a slash is cut off in front of anything. -/
theorem scan_of_symbol (h : Lexeme.symbol? kind = some cs) (hcs : cs ≠ ['/']) (p : Position)
    (rest : List Char) :
    scan 0 p (cs ++ rest)
      = (scan 0 (p.after cs) rest).prepend [⟨kind, String.ofList cs, some p⟩] := by
  have hspelled := Lexeme.Spelled.symbol h
  obtain ⟨d, ds, rfl, hblank⟩ := Lexeme.exists_cons_of_spelled hspelled
  -- no other symbol starts with a slash
  have hslash : d ≠ '/' := by
    rintro rfl
    cases kind <;> cases h
    exact hcs rfl
  exact scan_of_read hblank (Lexeme.read_of_symbol h fun hd => absurd hd hslash)
    (Lexeme.kind_of_spelled hspelled).1 p

/-- Each token of a source but a comment is spelled as its kind says. -/
theorem spelled_of_mem_scan {skip : Nat} (h : t ∈ (scan skip p cs).tokens) :
    t.kind = .comment ∨ Lexeme.Spelled t.kind t.text.toList := by
  fun_induction scan skip p cs with
  | case1 => cases h
  | case2 _ _ _ _ ih => exact ih h
  | case3 _ _ _ _ ih => exact ih h
  -- a lexeme: its token, or one of those behind it
  | case4 p c cs hblank l hread ih =>
    rcases List.mem_cons.1 h with rfl | h
    · refine (Lexeme.spelled_read hread).imp_right fun hspelled => ?_
      have hkind := (Lexeme.kind_of_spelled hspelled).1
      simpa [Lexeme.text, if_neg hkind] using hspelled
    · exact ih h
  | case5 => cases h

/-- No token before the last one ends a stream. -/
theorem isTerminal_of_mem_scan {skip : Nat} (h : t ∈ (scan skip p cs).tokens) :
    t.isTerminal = false := by
  rcases spelled_of_mem_scan h with hcomment | hspelled
  · simp [Token.isTerminal, hcomment]
  · simp [Token.isTerminal, (Lexeme.kind_of_spelled hspelled).2]

end Lexing

end ScalarLang
