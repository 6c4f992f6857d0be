import ScalarLang.Proofs.Number.Signed
import ScalarLang.Proofs.Number.Whole
import ScalarLang.Proofs.Source.Canonical
import ScalarLang.Proofs.Source.Columns
import ScalarLang.Proofs.Syntax.Declaration

/-!
# Whole numbers in variables of type `float`

A variable of type `float` that is given a whole number is known to hold a fraction from then on.
The text of that fraction is the whole number with a point and a zero behind it, where the text of
the same value, written with a point in the source, has the fewest digits that read back. So what is
reported of a later misuse of the variable depends on how the number was written exactly if these
digits do not write the value itself. The module introduces:

* `storing before name target literal`: a source that stores a literal in a variable of type `float`
  and then that variable in one of type `int`, behind any bytes;
* `LexedAs cs words`: the text has these words, wherever it stands.

The statements around the declaration are analysed in the same way whatever the literal is
(`reported_run_congr`), and so it is the text that is stored which decides (`statement_number`,
`reported_run_number`). The results are `wordings_storing_eq` for literals that are stored as the
same text, and `wordings_storing_nil`, where the text shows.
-/

namespace ScalarLang

open ScalarLang.Grammar ScalarLang.Lexeme ScalarLang.Parser

/-! ## What is known of the variable -/

namespace Analysis

variable {s : State} {v : Binary64} {isInteger : Bool} {text : String}

/-- If a statement is replaced by one that is analysed alike, the same is reported. -/
theorem reported_run_congr {t t' : Tree} (h : ∀ s, ∃ s' e e' diagnostics,
      statement s t = .next s' e diagnostics ∧ statement s t' = .next s' e' diagnostics)
    (s : State) (xs ys : List Tree) :
    (run s (xs ++ t :: ys)).reported = (run s (xs ++ t' :: ys)).reported := by
  induction xs generalizing s with
  | nil =>
    obtain ⟨s', e, e', diagnostics, ht, ht'⟩ := h s
    rw [List.nil_append, List.nil_append, run, run, ht, ht']
    exact (Run.reported_cons _ _ _).trans (Run.reported_cons _ _ _).symm
  | cons x xs ih =>
    rw [List.cons_append, List.cons_append, run, run]
    cases statement s x with
    | halt s' reason => rfl
    | next s' e diagnostics =>
      show ((run s' (xs ++ t :: ys)).cons e diagnostics).reported = _
      rw [Run.reported_cons, ih, ← Run.reported_cons]

/-- A variable of type `float` can hold every number. -/
theorem storable_number (h : numberLiteral? text = some (.number v isInteger)) (s : State)
    (position position' : Option Position) :
    storable s .float position (.leaf .number text position') = .ok (.number v isInteger, []) := by
  rw [storable_eq_ok_iff]
  constructor
  · rw [Tree.leaf, expression, h]
  · cases isInteger <;> rfl

/-- What is known of the variable afterwards. -/
theorem store_number (s : State) (name : String) (v : Binary64)
    (h : v.wholeText ++ ".0" = Expr.numberText v false) :
    s.store name .float (.number v true) = s.store name .float (.number v false) := by
  have hstored : stored .float (resolve s.symbols s.bindings (.number v true))
      = stored .float (resolve s.symbols s.bindings (.number v false)) :=
    congrArg (fun text => some (Literal.mk .float text)) h
  rw [State.store, State.store, hstored]

/-- A declaration with a known type. -/
theorem statement_complete {type name : Token} {scalarType : ScalarType}
    (htype : ScalarType.ofName? type.text = some scalarType) (s : State) (value : Tree) :
    statement s ((Purpose.declaration type name).complete value)
      = declaration s scalarType name.text name.position value := by
  simp only [Purpose.complete, Tree.leaf, statement, htype]

/-- A variable of type `int` cannot hold what is known to be a fraction. -/
theorem declaration_var_of_float {name text : String}
    (h : s.bindings name = some ⟨.float, text⟩) (target : String)
    (position position' : Option Position) :
    declaration s .int target position (.leaf .var name position')
      = .halt (s.enter target .int position)
          (.fatal ⟨.incompatible .int .float text, position⟩) := by
  have hbindings : (s.enter target .int position).bindings name = some ⟨.float, text⟩ := h
  have hincompatible : incompatible? (s.enter target .int position) .int (.var name) position
      = some ⟨.incompatible .int .float text, position⟩ := by
    rw [incompatible?, resolve, resolveVar, hbindings]
    rfl
  rw [declaration_eq, storable, Tree.leaf, expression]
  simp only [bind, Except.bind, hincompatible]

/-- A number with a point and one without are declared alike if they are stored as the same text. -/
theorem statement_number {type name : Token} (htype : type.text = "float") {text text' : String}
    (h : numberLiteral? text = some (.number v true))
    (h' : numberLiteral? text' = some (.number v false))
    (hstored : v.wholeText ++ ".0" = Expr.numberText v false) (position position' : Option Position)
    (s : State) :
    ∃ s' e e' diagnostics,
      statement s ((Purpose.declaration type name).complete (.leaf .number text position))
          = .next s' e diagnostics ∧
        statement s ((Purpose.declaration type name).complete (.leaf .number text' position'))
          = .next s' e' diagnostics := by
  have hfloat : ScalarType.ofName? type.text = some .float := by rw [htype]; rfl
  rw [statement_complete hfloat, statement_complete hfloat, declaration_eq, declaration_eq,
    storable_number h, storable_number h']
  -- a name that is declared already keeps what it holds
  by_cases hnew : s.symbols.find? name.text = none
  · simp only [hnew, if_true]
    exact ⟨_, _, _, _, rfl, by rw [store_number _ _ _ hstored]⟩
  · simp only [hnew, if_false]
    exact ⟨_, _, _, _, rfl, rfl⟩

/-- A number that is stored in a variable of type `float` and then in one of type `int` is reported
with the text that it was stored as. -/
theorem reported_run_number (type name type' target : Token) {literal : String}
    (htype : type.text = "float") (htype' : type'.text = "int")
    (hvalue : numberLiteral? literal = some (.number v isInteger))
    (hstored : ∀ symbols bindings,
      stored .float (resolve symbols bindings (.number v isInteger)) = some ⟨.float, text⟩)
    (position position' : Option Position) :
    (run .initial [(Purpose.declaration type name).complete (.leaf .number literal position),
        (Purpose.declaration type' target).complete (.leaf .var name.text position')]).reported
      = .error (.fatal ⟨.incompatible .int .float text, target.position⟩) := by
  have hfloat : ScalarType.ofName? type.text = some .float := by rw [htype]; rfl
  have hint : ScalarType.ofName? type'.text = some .int := by rw [htype']; rfl
  have hnew : State.initial.symbols.find? name.text = none := rfl
  let known := (State.initial.enter name.text .float name.position).store name.text .float
    (.number v isInteger)
  have hknown : known.bindings name.text = some ⟨.float, text⟩ :=
    (if_pos rfl).trans (hstored _ _)
  rw [run, statement_complete hfloat, declaration_eq, storable_number hvalue]
  simp only [hnew, if_true]
  rw [run, statement_complete hint, declaration_var_of_float hknown]
  rfl

end Analysis

/-- If a statement is replaced by one that is analysed alike, the same is reported. -/
theorem Parse.wordings_congr {p p' : Parse} {early late : List (Except SyntaxError Tree)}
    {t t' : Tree} (hp : p.outcomes = early ++ .ok t :: late)
    (hp' : p'.outcomes = early ++ .ok t' :: late)
    (h : ∀ s, ∃ s' e e' diagnostics, Analysis.statement s t = .next s' e diagnostics ∧
      Analysis.statement s t' = .next s' e' diagnostics) : p.wordings = p'.wordings := by
  have herrors : p.errors = p'.errors := by simp [errors, hp, hp']
  have hstatements {p : Parse} {t : Tree} (hp : p.outcomes = early ++ .ok t :: late) :
      p.statements = (Parse.mk early []).statements ++ t :: (Parse.mk late []).statements := by
    simp [statements, hp]
  rw [wordings, wordings, herrors, hstatements hp, hstatements hp',
    Analysis.reported_run_congr h]

/-! ## The words of the source -/

/-- What follows the type in the source: a variable is given a literal, and another one of type
`int` is given that variable. -/
def storedText (name target literal : String) : String :=
  name ++ " = " ++ literal ++ "; int " ++ target ++ " = " ++ name ++ ";"

/-- The source behind any bytes, with the type `float`. -/
def storing (before : List UInt8) (name target literal : String) : List UInt8 :=
  before ++ Utf8.encode ("float " ++ storedText name target literal).toList

/-- The words of the source behind its first one. -/
def storedWords (name target literal : String) : List (Token.Kind × String) :=
  [(.identifier, name), (.assign, "="), (.number, literal), (.semicolon, ";"), (.typeName, "int"),
    (.identifier, target), (.assign, "="), (.identifier, name), (.semicolon, ";"),
    (.endOfInput, "")]

/-- The text has these words, wherever it stands. -/
def LexedAs (cs : List Char) (words : List (Token.Kind × String)) : Prop :=
  ∀ p, (Lexing.scan 0 p cs).words = words

namespace LexedAs

variable {kind : Token.Kind} {cs rest : List Char} {words : List (Token.Kind × String)}

/-- A word in front of anything that cannot extend it. -/
theorem spelled (h : LexedAs rest words) (hspelled : Spelled kind cs) (hrest : Stops rest) :
    LexedAs (cs ++ rest) ((kind, String.ofList cs) :: words) := by
  intro p
  have hkind := (kind_of_spelled hspelled).1
  rw [Lexing.scan_of_spelled hspelled hrest, ← h (p.after cs)]
  simp [Lexing.words, Lexing.stream, Lexing.prepend, Token.isComment, hkind]

/-- A space in front. -/
theorem space (h : LexedAs rest words) : LexedAs (' ' :: rest) words := by
  intro p
  rw [Lexing.scan_blank (by decide)]
  exact h _

end LexedAs

/-- The words of the text. -/
theorem lexedAs_storedText {name target literal : String} (hname : IsName name)
    (htarget : IsName target) (hliteral : Spelled .number literal.toList) :
    LexedAs (storedText name target literal).toList (storedWords name target literal) := by
  have hassign : Spelled .assign "=".toList := .symbol rfl
  have hsemicolon : Spelled .semicolon ";".toList := .symbol rfl
  have hint : Spelled .typeName "int".toList := (@spelled_name .int (by decide)).1
  have hspace {cs : List Char} : Stops (' ' :: cs) := .inl rfl
  have hclose {cs : List Char} : Stops (";".toList ++ cs) := .inr (.inr rfl)
  -- from the end of the text to its beginning
  have hend : LexedAs [] [(.endOfInput, "")] := fun _ => rfl
  have hread := (hend.spelled hsemicolon trivial).spelled hname hclose
  have hsecond := (hread.space.spelled hassign hspace).space.spelled htarget hspace
  have hbetween := (hsecond.space.spelled hint hspace).space.spelled hsemicolon hspace
  have hvalue := (hbetween.spelled hliteral hclose).space.spelled hassign hspace
  have hall := hvalue.space.spelled hname hspace
  have htext : (storedText name target literal).toList
      = name.toList ++ ' ' :: ("=".toList ++ ' ' :: (literal.toList ++ (";".toList ++ ' ' ::
          ("int".toList ++ ' ' :: (target.toList ++ ' ' :: ("=".toList ++ ' ' ::
            (name.toList ++ (";".toList ++ [])))))))) := by
    simp [storedText]
  simp only [String.ofList_toList] at hall
  rw [htext]
  exact hall

/-- What is spelled as a kind says is in one line. -/
theorem lineFeed_notMem_of_spelled {kind : Token.Kind} {cs : List Char} (h : Spelled kind cs) :
    '\n' ∉ cs := by
  intro hmem
  cases h with
  | number h =>
    obtain ⟨-, hwhole, hfraction⟩ := h
    rcases Numeral.mem_layout hwhole hfraction hmem with h | h <;> exact absurd h (by decide)
  | word hc hcs =>
    rcases List.mem_cons.1 hmem with rfl | hmem
    · exact absurd hc (by decide)
    · exact absurd (hcs _ hmem) (by decide)
  | symbol h => cases kind <;> cases h <;> exact absurd hmem (by decide)

theorem lineFeed_notMem_storedText {name target literal : String} (hname : IsName name)
    (htarget : IsName target) (hliteral : Spelled .number literal.toList) :
    '\n' ∉ (storedText name target literal).toList := by
  simp [storedText, lineFeed_notMem_of_spelled hname, lineFeed_notMem_of_spelled htarget,
    lineFeed_notMem_of_spelled hliteral]

/-- A word that ends with `float` is that keyword or a name. -/
theorem wordKind_append_float (before : List Char) :
    (before = [] ∧ wordKind (String.ofList (before ++ "float".toList)) = .typeName) ∨
      wordKind (String.ofList (before ++ "float".toList)) = .identifier := by
  cases before with
  | nil => exact .inl ⟨rfl, by decide⟩
  | cons c cs =>
    -- all keywords are shorter
    have hne (word : String) (hword : word.toList.length ≤ 5) :
        String.ofList (c :: cs ++ "float".toList) ≠ word := by
      rintro rfl
      simp at hword
    right
    generalize String.ofList (c :: cs ++ "float".toList) = longer at hne ⊢
    simp [wordKind, hne "int", hne "float", hne "bool", hne "true", hne "false"]

/-- The tokens of the source behind its first one, with their line alone. -/
theorem lined_storedText {name target literal : String} (hname : IsName name)
    (htarget : IsName target) (hliteral : Spelled .number literal.toList) (q : Position) :
    (Lexing.scan 0 q (storedText name target literal).toList).lined
      = wordsAt (some ⟨q.line, 0⟩) (storedWords name target literal) := by
  rw [Lexing.lined_scan_of_line (lineFeed_notMem_storedText hname htarget hliteral),
    lexedAs_storedText hname htarget hliteral q]

/-- The literal of a declaration that starts with `float` may be replaced by one that is stored as
the same text, behind any tokens. -/
theorem Parse.wordings_storedWords {us : List Token} (hus : ∀ u ∈ us, u.isTerminal = false)
    {type : Token} (htype : (type.kind = .typeName ∧ type.text = "float") ∨ type.kind = .identifier)
    {name target literal literal' : String} {v : Binary64} (position : Option Position)
    (hvalue : Analysis.numberLiteral? literal = some (.number v true))
    (hvalue' : Analysis.numberLiteral? literal' = some (.number v false))
    (hstored : v.wholeText ++ ".0" = Expr.numberText v false) :
    (ofTokens (us ++ type :: wordsAt position (storedWords name target literal))).wordings
      = (ofTokens
          (us ++ type :: wordsAt position (storedWords name target literal'))).wordings := by
  let mark (kind : Token.Kind) (text : String) : Token := ⟨kind, text, position⟩
  let tail := wordsAt position ((storedWords name target literal).drop 4)
  obtain ⟨early, phase, hrun⟩ := exists_outcomes_of_nonterminal hus .start
  rcases exists_outcomes_declaration (htype.imp_left And.left)
      (show (mark .identifier name).kind = _ from rfl) (show (mark .assign "=").kind = _ from rfl)
      (show (mark .semicolon ";").kind = _ from rfl) phase with
    ⟨outcomes, hdeclaration⟩ | ⟨hkind, hdeclaration⟩
  · -- the declaration is given up before its value
    have houtcomes (literal : String) :
        (ofTokens (us ++ type :: wordsAt position (storedWords name target literal))).outcomes
          = early ++ (outcomes ++ (run .start tail).outcomes) :=
      (hrun _).trans (congrArg (early ++ ·) (hdeclaration (mark .number literal) rfl tail))
    rw [wordings, wordings, errors, errors, statements, statements, houtcomes, houtcomes]
  · -- the literal is in one statement, and nothing else depends on it
    have houtcomes (literal : String) :
        (ofTokens (us ++ type :: wordsAt position (storedWords name target literal))).outcomes
          = early ++ .ok ((Purpose.declaration type (mark .identifier name)).complete
              (.leaf .number literal position)) :: (run .start tail).outcomes :=
      (hrun _).trans (congrArg (early ++ ·) (hdeclaration (mark .number literal) rfl tail))
    have hfloat : type.text = "float" := by
      rcases htype with ⟨-, htext⟩ | hname
      · exact htext
      · exact absurd (hkind.symm.trans hname) (by decide)
    exact wordings_congr (houtcomes literal) (houtcomes literal')
      (Analysis.statement_number hfloat hvalue hvalue' hstored position position)

/-- With nothing before it, the source has two statements. -/
theorem Parse.outcomes_storedWords (type : Token) (htype : type.kind = .typeName)
    (name target literal : String) (position : Option Position) :
    (ofTokens (type :: wordsAt position (storedWords name target literal))).outcomes
      = [.ok ((Purpose.declaration type ⟨.identifier, name, position⟩).complete
            (.leaf .number literal position)),
          .ok ((Purpose.declaration ⟨.typeName, "int", position⟩
            ⟨.identifier, target, position⟩).complete (.leaf .var name position))] := by
  rw [ofTokens, wordsAt, storedWords, List.map_cons, run_start_named htype rfl]
  simp only [List.map_cons, List.map_nil]
  rw [run_named rfl rfl rfl, run_start_named rfl rfl, run_named rfl rfl rfl]
  rfl

/-! ## Reports -/

/-- The characters of the source. -/
theorem decode_storing (before : List UInt8) (name target literal : String) :
    Utf8.decode (storing before name target literal)
      = Utf8.decode before ++ "float".toList ++ ' ' :: (storedText name target literal).toList := by
  have htext : ("float " ++ storedText name target literal).toList
      = 'f' :: ("loat".toList ++ ' ' :: (storedText name target literal).toList) := by simp
  have hbyte : String.utf8EncodeChar 'f' = [102] := by decide
  rw [storing, htext, Utf8.decode_append_encode_cons hbyte]
  simp

namespace Report

variable {name target literal literal' : String} {v : Binary64}

/-- Literals that are stored as the same text are reported alike, whatever comes before. -/
theorem wordings_storing_eq (hname : IsName name) (htarget : IsName target)
    (hliteral : Spelled .number literal.toList) (hliteral' : Spelled .number literal'.toList)
    (hvalue : Analysis.numberLiteral? literal = some (.number v true))
    (hvalue' : Analysis.numberLiteral? literal' = some (.number v false))
    (hstored : v.wholeText ++ ".0" = Expr.numberText v false) (filename : String)
    (before : List UInt8) :
    (ofSource filename (storing before name target literal)).wordings
      = (ofSource filename (storing before name target literal')).wordings := by
  have hword : Lexing.Resumes "float".toList fun rest =>
      Lexing.scan 0 Position.start (Utf8.decode before ++ "float".toList ++ ' ' :: rest) :=
    @Lexing.resumes_scan 'f' "loat".toList (by decide) (List.all_eq_true.1 (by decide))
      (Utf8.decode before) _
  rw [wordings_ofSource, wordings_ofSource, decode_storing, decode_storing, Lexing.ofChars,
    Lexing.ofChars]
  rcases hword with ⟨us, hlined⟩ | ⟨us, early, position, q, hus, hlined⟩
  · -- the literal is in a comment, or lexing ends before it
    rw [hlined _ (lineFeed_notMem_storedText hname htarget hliteral),
      hlined _ (lineFeed_notMem_storedText hname htarget hliteral')]
  · rw [hlined, hlined, lined_storedText hname htarget hliteral,
      lined_storedText hname htarget hliteral']
    refine Parse.wordings_storedWords hus ?_ _ hvalue hvalue' hstored
    exact (wordKind_append_float early).imp_left fun h => ⟨h.2, by rw [h.1]; rfl⟩

/-- With nothing before it, the source is rejected for the text that is stored. -/
theorem wordings_storing_nil {isInteger : Bool} {text : String} (hname : IsName name)
    (htarget : IsName target) (hliteral : Spelled .number literal.toList)
    (hvalue : Analysis.numberLiteral? literal = some (.number v isInteger))
    (hstored : ∀ symbols bindings, Analysis.stored .float
      (Analysis.resolve symbols bindings (.number v isInteger)) = some ⟨.float, text⟩)
    (filename : String) :
    (ofSource filename (storing [] name target literal)).wordings
      = [((Diagnostic.Cause.incompatible .int .float text).message, some 1)] := by
  have hfloat : Spelled .typeName "float".toList := (@spelled_name .float (by decide)).1
  let mark (kind : Token.Kind) (text : String) : Token := ⟨kind, text, some ⟨1, 0⟩⟩
  -- all tokens are in the first line
  have hlined : (Lexing.ofChars (Utf8.decode (storing [] name target literal))).lined
      = mark .typeName "float" :: wordsAt (some ⟨1, 0⟩) (storedWords name target literal) := by
    rw [decode_storing, Lexing.ofChars]
    show (Lexing.scan 0 Position.start
      ("float".toList ++ ' ' :: (storedText name target literal).toList)).lined = _
    rw [Lexing.scan_spelled_space hfloat]
    refine (Lexing.lined_cons _ _).trans ((if_neg (by simp [Token.isComment])).trans ?_)
    rw [lined_storedText hname htarget hliteral]
    rfl
  have houtcomes := Parse.outcomes_storedWords (mark .typeName "float") rfl name target literal
    (some ⟨1, 0⟩)
  have hreported := Analysis.reported_run_number (mark .typeName "float") (mark .identifier name)
    (mark .typeName "int") (mark .identifier target) rfl rfl hvalue hstored (some ⟨1, 0⟩)
    (some ⟨1, 0⟩)
  rw [wordings_ofSource, hlined, Parse.wordings, Parse.errors, Parse.statements, houtcomes]
  exact (if_pos rfl).trans (congrArg Analysis.wordings hreported)

/-- The message shows the text. -/
theorem eq_of_message_eq {target value : ScalarType} {text text' : String}
    (h : (Diagnostic.Cause.incompatible target value text).message
      = (Diagnostic.Cause.incompatible target value text').message) : text = text' := by
  have hmessage (text : String) : (Diagnostic.Cause.incompatible target value text).message
      = "cannot assign " ++ Diagnostic.valueNoun target value ++ " '" ++ text ++ "' to " ++
          target.name ++ " variable" := rfl
  rw [hmessage, hmessage] at h
  have hlist := congrArg String.toList h
  simp only [String.toList_append, List.append_assoc, List.append_cancel_left_eq,
    List.append_cancel_right_eq] at hlist
  exact String.toList_injective hlist

/-- How a whole number that is stored in a variable of type `float` is reported. The text that is
stored for it is the text of the same value as a fraction exactly if the fewest digits that read
back as the value write the value itself. If they do, it makes no difference whether a point and a
zero follow the digits in the source: whatever bytes come before, the messages are the same and in
the same lines. If they do not, then even with nothing before it the messages differ. All whole
numbers below `2 ^ 53` are written by their fewest digits. -/
theorem wordings_with_point {digits : List Char} (hne : digits ≠ [])
    (hdigits : Numeral.Digits digits) (hvalue : Numeral.value? (String.ofList digits) = some v) :
    (∀ symbols bindings,
        Analysis.stored .float (Analysis.resolve symbols bindings (.number v true))
            = some ⟨.float, Expr.numberText v false⟩ ↔
          (Decimal.shortest v.rank).Exact v.rank) ∧
      ((Decimal.shortest v.rank).Exact v.rank →
        ∀ filename before name target, IsName name → IsName target →
          (ofSource filename (storing before name target (String.ofList digits))).wordings
            = (ofSource filename
                (storing before name target (String.ofList digits ++ ".0"))).wordings) ∧
      (¬(Decimal.shortest v.rank).Exact v.rank →
        ∀ filename name target, IsName name → IsName target →
          (ofSource filename (storing [] name target (String.ofList digits))).wordings
            ≠ (ofSource filename
                (storing [] name target (String.ofList digits ++ ".0"))).wordings) ∧
      (Numeral.ofDigits 10 digits < 2 ^ 53 → (Decimal.shortest v.rank).Exact v.rank) := by
  have hwrites := writes_of_digits hne hdigits hvalue
  have hpoint : '.' ∉ digits := fun hmem => absurd (hdigits '.' hmem) (by decide)
  have hzero : Numeral.Digits ['0'] := by simp [Numeral.Digits]
  have hnumeral : Numeral.IsNumeral digits :=
    @Numeral.IsNumeral.layout digits [] hne hdigits (by simp [Numeral.Digits])
  -- the two literals and their texts
  have hspelled : Spelled .number (String.ofList digits).toList := by
    rw [String.toList_ofList]
    exact .number hnumeral
  have hspelled' : Spelled .number (String.ofList digits ++ ".0").toList := by
    rw [String.toList_append, String.toList_ofList]
    exact .number (@Numeral.IsNumeral.layout digits ['0'] hne hdigits hzero)
  have hwhole : IsLiteral v true := by
    have hliteral := isLiteral_of_value? (by rwa [String.toList_ofList]) hvalue
    simpa [hpoint] using hliteral
  have hexact := hwhole.wholeText_append_iff
  refine ⟨fun symbols bindings => ?_, ?_, ?_, Numeral.exact_shortest_of_lt hne hdigits hvalue⟩
  · rw [← hexact]
    exact ⟨fun h => congrArg Analysis.Literal.text (Option.some.inj h),
      fun h => congrArg (fun text => some (Analysis.Literal.mk .float text)) h⟩
  · intro h filename before name target hname htarget
    exact wordings_storing_eq hname htarget hspelled hspelled' hwrites.numberLiteral?
      hwrites.append_zero.numberLiteral? (hexact.2 h) filename before
  · intro h filename name target hname htarget hwordings
    rw [wordings_storing_nil hname htarget hspelled hwrites.numberLiteral? (fun _ _ => rfl),
      wordings_storing_nil hname htarget hspelled' hwrites.append_zero.numberLiteral?
        (fun _ _ => rfl)] at hwordings
    -- the only message has the text in it
    have hmessage := congrArg Prod.fst (List.cons.inj hwordings).1
    exact h (hexact.1 (eq_of_message_eq hmessage))

/-- The fewest digits of the first value write a larger number, and the second value is small. -/
theorem wordings_with_point_sample :
    let large : Binary64 := .ofRatio false 100000000000000000000000 1
    let small : Binary64 := .ofRatio false 25 1
    (Numeral.value? "100000000000000000000000" = some large ∧
        ¬(Decimal.shortest large.rank).Exact large.rank ∧
          ∀ filename, (ofSource filename (storing [] "f" "i" "100000000000000000000000")).wordings
            ≠ (ofSource filename (storing [] "f" "i" "100000000000000000000000.0")).wordings) ∧
      Numeral.value? "25" = some small ∧ (Decimal.shortest small.rank).Exact small.rank ∧
        ∀ filename before, (ofSource filename (storing before "f" "i" "25")).wordings
          = (ofSource filename (storing before "f" "i" "25.0")).wordings := by
  intro large small
  have hf : IsName "f" := @Spelled.of_all 'f' [] (by decide) (by decide)
  have hi : IsName "i" := @Spelled.of_all 'i' [] (by decide) (by decide)
  have hlarge : Numeral.value? "100000000000000000000000" = some large := by decide +kernel
  have hsmall : Numeral.value? "25" = some small := by decide +kernel
  have hinexact : ¬(Decimal.shortest large.rank).Exact large.rank := by decide +kernel
  obtain ⟨-, -, hdiffer, -⟩ := @wordings_with_point large "100000000000000000000000".toList
    (by decide) (by simp [Numeral.Digits]) hlarge
  obtain ⟨-, hequal, -, hexact⟩ := @wordings_with_point small "25".toList (by decide)
    (by simp [Numeral.Digits]) hsmall
  have hexact := hexact (by decide)
  refine ⟨⟨hlarge, hinexact, ?_⟩, hsmall, hexact, ?_⟩
  · intro filename
    exact hdiffer hinexact filename "f" "i" hf hi
  · intro filename before
    exact hequal hexact filename before "f" "i" hf hi

end Report

end ScalarLang
