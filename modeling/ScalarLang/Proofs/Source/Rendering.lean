import ScalarLang.Proofs.Analysis.Statement
import ScalarLang.Proofs.Number.Writing
import ScalarLang.Proofs.Source.Sentence
import ScalarLang.Proofs.Text.Utf8

/-!
# The tokens of a written program

A program is written with the tokens of its source, numbers apart, which are written in a form of
their own that denotes the same value. `Renders cs ts` says that the text `cs` is cut into tokens
alike the tokens `ts`; it is proved of each expression from the same of its parts. What keeps two
tokens apart in the written text is a space, a parenthesis or a semicolon, except after `-`, `!` and
`(`, which no character can extend.

* `renders_phrase`, `renders_statement`: an expression or statement of the source and its text.
* `forall₂_alike_stream`: a whole source and its written program.
-/

namespace ScalarLang

/-- Tokens of one kind with one meaning: they have one text, or they are numbers with one value, and
with a point both or neither. -/
structure Token.Alike (t u : Token) : Prop where
  kind : u.kind = t.kind
  text : t.kind ≠ .number → u.text = t.text
  value : t.kind = .number →
    Numeral.value? u.text = Numeral.value? t.text ∧ ('.' ∈ u.text.toList ↔ '.' ∈ t.text.toList)

/-- Tokens are alike if they differ in their position only. -/
theorem Token.alike_of_text_eq {t : Token} {text : String} (h : text = t.text)
    (position : Option Position) : t.Alike ⟨t.kind, text, position⟩ := by
  subst h
  exact ⟨rfl, fun _ => rfl, fun _ => ⟨rfl, Iff.rfl⟩⟩

namespace Lexing

open ScalarLang.Lexeme

/-- In front of anything that cannot extend it, `cs` is cut into tokens alike `ts`. -/
def Renders (cs : List Char) (ts : List Token) : Prop :=
  ∀ p rest, Stops rest → ∃ us, List.Forall₂ Token.Alike ts us ∧
    scan 0 p (cs ++ rest) = (scan 0 (p.after cs) rest).prepend us

variable {cs ds : List Char} {ts us : List Token} {t : Token}

/-- The text of one token. -/
theorem renders_token (hspelled : Spelled t.kind cs)
    (halike : ∀ position, t.Alike ⟨t.kind, String.ofList cs, position⟩) : Renders cs [t] :=
  fun p _ hrest => ⟨_, .cons (halike (some p)) .nil, scan_of_spelled hspelled hrest p⟩

/-- A token that is written as it was read. -/
theorem renders_self (hspelled : Spelled t.kind t.text.toList) : Renders t.text.toList [t] :=
  renders_token hspelled (Token.alike_of_text_eq String.ofList_toList)

/-- A space goes between two texts. -/
theorem Renders.space (h : Renders cs ts) (h' : Renders ds us) :
    Renders (cs ++ ' ' :: ds) (ts ++ us) := by
  intro p rest hrest
  obtain ⟨ts', hts, hscan⟩ := h p (' ' :: (ds ++ rest)) (.inl rfl)
  obtain ⟨us', hus, hscan'⟩ := h' ((p.after cs).advance ' ') rest hrest
  refine ⟨ts' ++ us', List.rel_append hts hus, ?_⟩
  rw [List.append_assoc, List.cons_append, hscan, scan_blank (by decide), hscan', prepend_prepend,
    after_append]
  rfl

/-- The token that the symbol of `t` is cut off as. -/
theorem alike_symbol {symbol : List Char} (hspelled : Spelled t.kind t.text.toList)
    (hsymbol : symbol? t.kind = some symbol) (position : Option Position) :
    t.Alike ⟨t.kind, String.ofList symbol, position⟩ := by
  exact Token.alike_of_text_eq (text_of_spelled hspelled hsymbol).symm position

/-- The symbol of an operator other than a slash goes right before a text. -/
theorem Renders.symbol {symbol : List Char} (hspelled : Spelled t.kind t.text.toList)
    (hsymbol : symbol? t.kind = some symbol) (hslash : symbol ≠ ['/']) (h : Renders cs ts) :
    Renders (symbol ++ cs) (t :: ts) := by
  intro p rest hrest
  obtain ⟨us, hus, hscan⟩ := h (p.after symbol) rest hrest
  refine ⟨⟨t.kind, String.ofList symbol, some p⟩ :: us,
    .cons (alike_symbol hspelled hsymbol _) hus, ?_⟩
  rw [List.append_assoc, scan_of_symbol hsymbol hslash, hscan, prepend_prepend, after_append]
  rfl

/-- A parenthesis or semicolon goes right behind a text, whatever follows. -/
theorem Renders.scan_symbol {c : Char} (h : Renders cs ts)
    (hspelled : Spelled t.kind t.text.toList) (hsymbol : symbol? t.kind = some [c])
    (hc : Stops [c]) (p : Position) (rest : List Char) :
    ∃ us, List.Forall₂ Token.Alike (ts ++ [t]) us ∧
      scan 0 p (cs ++ c :: rest) = (scan 0 (p.after (cs ++ [c])) rest).prepend us := by
  obtain ⟨us, hus, hscan⟩ := h p (c :: rest) hc
  have hslash : [c] ≠ ['/'] := by rcases hc with rfl | rfl | rfl <;> decide
  refine ⟨us ++ [⟨t.kind, String.ofList [c], some (p.after cs)⟩],
    List.rel_append hus (.cons (alike_symbol hspelled hsymbol _) .nil), ?_⟩
  rw [hscan, ← List.singleton_append, scan_of_symbol hsymbol hslash, prepend_prepend, after_append]

end Lexing

namespace Analysis

open ScalarLang.Grammar ScalarLang.Lexeme ScalarLang.Lexing

variable {symbols : SymbolTable} {e : Expr} {diagnostics : List Diagnostic}

/-- A number is written as a numeral with its value. -/
theorem renders_number {t : Token} (ht : t.kind = .number) (hspelled : Spelled t.kind t.text.toList)
    (h : numberLiteral? t.text = some e) : Renders e.text.toList [t] := by
  obtain ⟨v, hvalue, rfl⟩ := Option.map_eq_some_iff.1 h
  have hliteral := isLiteral_of_value? (isNumeral_of_spelled hspelled ht) hvalue
  -- the text need not be the one that was read, but it denotes the same literal
  refine renders_token (ht ▸ .number hliteral.isNumeral_numberText) fun position => ?_
  refine ⟨rfl, fun hne => absurd ht hne, fun _ => ⟨?_, ?_⟩⟩
  · rw [hvalue, String.ofList_toList]
    exact hliteral.value?_numberText
  · rw [String.ofList_toList]
    exact hliteral.point_mem_numberText_iff.trans (by simp)

/-- A truth value is written as it was read. -/
theorem text_of_booleanLiteral? {text : String} (h : booleanLiteral? text = some e) :
    e.text = text := by
  unfold booleanLiteral? at h
  split_ifs at h with htrue hfalse
  · cases h
    exact htrue.symm
  · cases h
    exact hfalse.symm

/-- An operator is written as it was read. -/
theorem symbol_of_binaryOp {cls : BinaryClass} {t : Token} (ht : t.kind ∈ operators cls)
    (hspelled : Spelled t.kind t.text.toList) {op : BinaryOp}
    (h : binaryOp cls (leaf .token t) = .ok op) : op.symbol = t.text := by
  unfold binaryOp leaf Tree.leaf at h
  cases cls with
  -- the token of these two is not looked at, but it has only one spelling
  | disjunction =>
    cases h
    exact (text_of_spelled hspelled (by rw [List.mem_singleton.1 ht]; rfl)).symm
  | conjunction =>
    cases h
    exact (text_of_spelled hspelled (by rw [List.mem_singleton.1 ht]; rfl)).symm
  | additive | multiplicative =>
    dsimp only at h
    split_ifs at h
    cases h
    rfl

/-- An expression of the source and its text. -/
theorem renders_phrase {s : Nonterminal} (d : Phrase s)
    (hspelled : ∀ t ∈ d.tokens, Spelled t.kind t.text.toList)
    (h : expression symbols d.tree = .ok (e, diagnostics)) : Renders e.text.toList d.tokens := by
  induction d generalizing e diagnostics with
  | operand inner ih => exact ih hspelled h
  | primary inner ih => exact ih hspelled h
  | number literal =>
    obtain ⟨hliteral, -⟩ := expression_number_eq_ok_iff.1 h
    exact renders_number literal.property (hspelled _ List.mem_cons_self) hliteral
  | boolean literal =>
    obtain ⟨hliteral, -⟩ := expression_boolean_eq_ok_iff.1 h
    rw [text_of_booleanLiteral? hliteral]
    exact renders_self (hspelled _ List.mem_cons_self)
  | var name =>
    cases h
    exact renders_self (hspelled _ List.mem_cons_self)
  | unary op sign inner ih =>
    obtain ⟨operand, hoperand, rfl, -⟩ := expression_unary_eq_ok_iff.1 h
    have hinner := ih (fun t ht => hspelled t (List.mem_cons_of_mem _ ht)) hoperand
    have hsymbol : symbol? sign.val.kind = some op.symbol.toList := by
      rw [sign.property]
      cases op <;> rfl
    simp only [Expr.text, String.toList_append, Phrase.tokens]
    exact hinner.symbol (hspelled _ List.mem_cons_self) hsymbol (by cases op <;> decide)
  | parens opening inner closing ih =>
    obtain ⟨operand, hoperand, rfl⟩ := expression_parens_eq_ok_iff.1 h
    simp only [Phrase.tokens, List.mem_cons, List.mem_append, List.not_mem_nil,
      or_false] at hspelled
    have hinner := ih (fun t ht => hspelled t (.inr (.inl ht))) hoperand
    -- behind the closing parenthesis anything may follow
    have hclosed : Renders (operand.text.toList ++ [')']) (inner.tokens ++ [closing.val]) := by
      intro p rest _
      rw [List.append_assoc]
      exact hinner.scan_symbol (hspelled _ (.inr (.inr rfl))) (by rw [closing.property]; rfl)
        (.inr (.inl rfl)) p rest
    simp only [Expr.text, String.toList_append, Phrase.tokens, List.append_assoc]
    exact hclosed.symbol (hspelled _ (.inl rfl)) (by rw [opening.property]; rfl) (by decide)
  | binary left op right ihl ihr =>
    obtain ⟨l, r, _, _, operator, hleft, hright, hop, rfl, -⟩ := expression_binary_eq_ok_iff.1 h
    simp only [Phrase.tokens, List.mem_append, List.mem_cons] at hspelled
    have hopSpelled := hspelled op.val (.inr (.inl rfl))
    have hl := ihl (fun t ht => hspelled t (.inl ht)) hleft
    have hr := ihr (fun t ht => hspelled t (.inr (.inr ht))) hright
    simp only [Expr.text, String.toList_append, Phrase.tokens,
      symbol_of_binaryOp op.property hopSpelled hop, List.append_assoc]
    exact hl.space ((renders_self hopSpelled).space hr)

/-- A type is written as it was read. -/
theorem name_of_ofName? {name : String} {type : ScalarType}
    (h : ScalarType.ofName? name = some type) : type.name = name := by
  unfold ScalarType.ofName? at h
  split_ifs at h with hint hfloat hbool
  · cases h
    exact hint.symm
  · cases h
    exact hfloat.symm
  · cases h
    exact hbool.symm

/-- A statement of the source and its text. -/
theorem renders_statement (d : Statement)
    (hspelled : ∀ t ∈ d.tokens, Spelled t.kind t.text.toList) {s s' : State}
    (h : statement s d.tree = .next s' e []) : Renders e.text.toList d.tokens := by
  -- the sign of a declaration or assignment is not kept in the tree, but it has only one spelling
  have hassign (assign : Terminal .assign) (hmem : assign.val ∈ d.tokens) :
      Renders ['='] [assign.val] := by
    have hsymbol : symbol? assign.val.kind = some ['='] := by
      rw [assign.property]
      rfl
    exact eq_of_spelled (hspelled _ hmem) hsymbol ▸ renders_self (hspelled _ hmem)
  cases d with
  | declaration type name assign value =>
    obtain ⟨scalarType, htype, hnext⟩ := exists_declaration_of_statement h
    obtain ⟨-, v, hvalue, rfl, -⟩ := declaration_eq_next_iff.1 hnext
    simp only [Statement.tokens, List.mem_cons] at hspelled hassign
    have hrenders := renders_phrase value (fun t ht => hspelled t (.inr (.inr (.inr ht))))
      (storable_eq_ok_iff.1 hvalue).1
    have hall := (renders_self (hspelled type.val (.inl rfl))).space
      ((renders_self (hspelled name.val (.inr (.inl rfl)))).space
        ((hassign assign (.inr (.inr (.inl rfl)))).space hrenders))
    simpa [Expr.text, name_of_ofName? htype, Statement.tokens] using hall
  | assignment name assign value =>
    rw [statement_assignment, assignment_eq_next_iff] at h
    obtain ⟨type, v, -, hvalue, rfl, -⟩ := h
    simp only [Statement.tokens, List.mem_cons] at hspelled hassign
    have hrenders := renders_phrase value (fun t ht => hspelled t (.inr (.inr ht)))
      (storable_eq_ok_iff.1 hvalue).1
    have hall := (renders_self (hspelled name.val (.inl rfl))).space
      ((hassign assign (.inr (.inl rfl))).space hrenders)
    simpa [Expr.text, Statement.tokens] using hall
  | expression value =>
    obtain ⟨-, hvalue⟩ := statement_expression_eq_next_iff.1 h
    exact renders_phrase value hspelled hvalue

/-- An accepted program and its text. -/
theorem scan_text (d : Derivation) (hspelled : ∀ t ∈ d.tokens, Spelled t.kind t.text.toList)
    {s s' : State} {es : List Expr} (h : run s d.statements = ⟨s', .ok (es, [])⟩) (p : Position) :
    ∃ us, List.Forall₂ Token.Alike d.tokens us ∧
      ∃ position, scan 0 p (Program.text ⟨es⟩).toList = ⟨us, .endOfInput position⟩ := by
  induction d generalizing s es p with
  | nil =>
    cases h
    exact ⟨[], .nil, p, rfl⟩
  | cons statement d ih =>
    obtain ⟨inner, e, later, hstatement, hrun, rfl⟩ := run_cons_eq_iff.1 h
    rw [Derivation.tokens_cons] at hspelled ⊢
    simp only [List.mem_append, List.mem_cons] at hspelled
    have hrenders := renders_statement statement.1 (fun t ht => hspelled t (.inl ht)) hstatement
    obtain ⟨us, hus, hscan⟩ := hrenders.scan_symbol (hspelled _ (.inr (.inl rfl)))
      (by rw [statement.2.property]; rfl) (.inr (.inr rfl)) p
      ('\n' :: (Program.text ⟨later⟩).toList)
    obtain ⟨vs, hvs, position, hscan'⟩ := ih (fun t ht => hspelled t (.inr (.inr ht))) hrun
      ((p.after (e.text.toList ++ [';'])).advance '\n')
    refine ⟨us ++ vs, by simpa using List.rel_append hus hvs, position, ?_⟩
    -- each statement is written on a line of its own, behind a semicolon
    have htext : (Program.text ⟨e :: later⟩).toList
        = e.text.toList ++ ';' :: '\n' :: (Program.text ⟨later⟩).toList := by
      simp [Program.text]
    rw [htext, hscan, scan_blank (by decide), hscan']
    rfl

end Analysis

namespace Report

open ScalarLang.Lexing

/-- Nothing of a source is lost, added or moved in its written program: comments apart, the two have
the same tokens in the same order, where a number may be written in another way. -/
theorem forall₂_alike_stream {filename : String} {source : List UInt8} {program : Program}
    (h : (ofSource filename source).verdict.bind (·.program) = some program) :
    List.Forall₂ Token.Alike
      ((ofChars (Utf8.decode source)).stream.filter (!·.isComment))
      (ofChars (Utf8.decode (Utf8.encode program.text.toList))).stream := by
  obtain ⟨v, hv, hprogram⟩ := Option.bind_eq_some_iff.1 h
  obtain ⟨d, position, s, hending, htokens, hrun, -⟩ := exists_derivation_of_ofSource hv hprogram
  have hspelled := Parse.spelled_of_tokens_eq htokens
  obtain ⟨us, hus, position', hscan⟩ := Analysis.scan_text d hspelled hrun Position.start
  have hlexing : ofChars program.text.toList = ⟨us, .endOfInput position'⟩ := hscan
  rw [htokens, Parse.sentence] at hus
  rw [Utf8.decode_encode, hlexing, stream, stream, List.filter_append, hending]
  -- both streams end with the end of the input
  refine List.rel_append hus (.cons ⟨rfl, fun _ => rfl, fun h => ?_⟩ .nil)
  cases h

/-- A source with a comment, and with a number that is written in another way. -/
theorem forall₂_alike_stream_sample :
    (ofSource "" (Utf8.encode "int a = 1; // x\n-a + 2.50;".toList)).verdict.bind (·.program)
        = some ⟨[.declaration "a" .int (.number (.ofRatio false 1 1) true),
            .binary (.additive "+") (.unary .minus (.var "a"))
              (.number (.ofRatio false 5 2) false)]⟩ ∧
      List.Forall₂ Token.Alike
        ((ofChars (Utf8.decode (Utf8.encode "int a = 1; // x\n-a + 2.50;".toList))).stream.filter
          (!·.isComment))
        (ofChars (Utf8.decode (Utf8.encode (Program.text
          ⟨[.declaration "a" .int (.number (.ofRatio false 1 1) true),
            .binary (.additive "+") (.unary .minus (.var "a"))
              (.number (.ofRatio false 5 2) false)]⟩).toList))).stream :=
  have h := by decide +kernel
  ⟨h, forall₂_alike_stream h⟩

end Report

end ScalarLang
