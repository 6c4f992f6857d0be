import ScalarLang.Proofs.Analysis.Signature
import ScalarLang.Proofs.Source.Rendering

/-!
# A written program is accepted again

The text of an accepted program is a source whose tokens are alike those of the first one. Tokens
that are alike have derivations of one shape, and the analysis of the second derivation goes the way
of the first: it finds the same expressions, and it refuses nothing that the first did not refuse.

* `exists_phrase_of_alike`, `exists_statement_of_alike`, `exists_derivation_of_alike`: derivations
  of tokens that are alike, and what their analysis gives.
* `ofSource_encode_text`: the report on the text of an accepted program.
-/

namespace ScalarLang

/-- A relation on lists splits where the first list does. -/
theorem exists_append_of_forall₂ {α β : Type} {R : α → β → Prop} {xs ys : List α} {zs : List β}
    (h : List.Forall₂ R (xs ++ ys) zs) :
    ∃ us vs, zs = us ++ vs ∧ List.Forall₂ R xs us ∧ List.Forall₂ R ys vs :=
  ⟨zs.take xs.length, zs.drop xs.length, (List.take_append_drop _ _).symm,
    (List.forall₂_take_append zs xs ys h.flip).flip,
    (List.forall₂_drop_append zs xs ys h.flip).flip⟩

/-- A relation on lists gives each member of the second one its member of the first. -/
theorem exists_mem_of_forall₂ {α β : Type} {R : α → β → Prop} {xs : List α} {ys : List β}
    (h : List.Forall₂ R xs ys) {y : β} (hy : y ∈ ys) : ∃ x ∈ xs, R x y := by
  induction h with
  | nil => cases hy
  | @cons x z xs zs hz _ ih =>
    rcases List.mem_cons.1 hy with rfl | hy
    · exact ⟨x, List.mem_cons_self, hz⟩
    · obtain ⟨x', hmem, hx'⟩ := ih hy
      exact ⟨x', List.mem_cons_of_mem _ hmem, hx'⟩

/-- Numbers that are alike denote one literal. -/
theorem Token.Alike.numberLiteral?_eq {t u : Token} (h : t.Alike u) (ht : t.kind = .number) :
    Analysis.numberLiteral? u.text = Analysis.numberLiteral? t.text := by
  obtain ⟨hvalue, hpoint⟩ := h.value ht
  have hcontains : u.text.toList.contains '.' = t.text.toList.contains '.' := by
    rw [Bool.eq_iff_iff, List.contains_iff_mem, List.contains_iff_mem, hpoint]
  rw [Analysis.numberLiteral?, Analysis.numberLiteral?, hvalue, hcontains]

namespace Analysis

open ScalarLang.Grammar

/-- Whatever the first tree is accepted as, the second one is accepted as, too. -/
def Agree (t t' : Tree) : Prop :=
  ∀ symbols symbols' e, symbols.signature = symbols'.signature →
    expression symbols t = .ok (e, []) → expression symbols' t' = .ok (e, [])

variable {us : List Token} {t u : Token}

/-- A number and a number that is alike. -/
theorem agree_number (h : t.Alike u) (ht : t.kind = .number) :
    Agree (leaf .number t) (leaf .number u) := by
  intro symbols symbols' e _ he
  obtain ⟨hliteral, -⟩ := expression_number_eq_ok_iff.1 he
  rw [← h.numberLiteral?_eq ht] at hliteral
  exact expression_number_eq_ok_iff.2 ⟨hliteral, rfl⟩

/-- A truth value in two places. -/
theorem agree_boolean (h : u.text = t.text) : Agree (leaf .boolean t) (leaf .boolean u) := by
  intro symbols symbols' e _ he
  obtain ⟨hliteral, -⟩ := expression_boolean_eq_ok_iff.1 he
  rw [← h] at hliteral
  exact expression_boolean_eq_ok_iff.2 ⟨hliteral, rfl⟩

/-- A variable in two places. -/
theorem agree_var (h : u.text = t.text) : Agree (leaf .var t) (leaf .var u) := by
  intro symbols symbols' e hsignature he
  -- whether the variable is declared shows in the signature
  simp only [leaf, Tree.leaf, expression, SymbolTable.isSome_find?, h,
    ← SymbolTable.typeOf?_congr hsignature] at he ⊢
  split_ifs at he ⊢ <;> cases he
  rfl

/-- An operator in two places. -/
theorem binaryOp_congr {cls : BinaryClass} {op : BinaryOp} (h : u.text = t.text)
    (hop : binaryOp cls (leaf .token t) = .ok op) : binaryOp cls (leaf .token u) = .ok op := by
  cases cls with
  | disjunction | conjunction => exact hop
  | additive | multiplicative =>
    simp only [leaf, Tree.leaf, binaryOp, h] at hop ⊢
    split_ifs at hop ⊢
    exact hop

/-- Parentheses around trees that agree. -/
theorem Agree.parens {inner inner' : Tree} (h : Agree inner inner') (p p' : Option Position) :
    Agree (.node .parens "" p [inner]) (.node .parens "" p' [inner']) := by
  intro symbols symbols' e hsignature he
  obtain ⟨operand, hoperand, rfl⟩ := expression_parens_eq_ok_iff.1 he
  exact expression_parens_eq_ok_iff.2 ⟨operand, h _ _ _ hsignature hoperand, rfl⟩

/-- A unary operator before trees that agree. -/
theorem Agree.unary {inner inner' : Tree} (h : Agree inner inner') (op : UnaryOp)
    (p p' : Option Position) :
    Agree (.node (.unary op) "" p [inner]) (.node (.unary op) "" p' [inner']) := by
  intro symbols symbols' e hsignature he
  obtain ⟨operand, hoperand, hrest⟩ := expression_unary_eq_ok_iff.1 he
  exact expression_unary_eq_ok_iff.2 ⟨operand, h _ _ _ hsignature hoperand, hrest⟩

/-- A binary operator between trees that agree. -/
theorem Agree.binary {left left' right right' : Tree} (hl : Agree left left')
    (hr : Agree right right') (cls : BinaryClass) (hop : u.text = t.text) (p p' : Option Position) :
    Agree (.node (.binary cls) "" p [left, leaf .token t, right])
      (.node (.binary cls) "" p' [left', leaf .token u, right']) := by
  intro symbols symbols' e hsignature he
  obtain ⟨l, r, leftDiagnostics, rightDiagnostics, operator, hleft, hright, hoperator, rfl, hnil⟩ :=
    expression_binary_eq_ok_iff.1 he
  -- without a diagnostic of the whole there is none of either operand
  obtain ⟨rfl, rfl⟩ := List.append_eq_nil_iff.1 hnil.symm
  exact expression_binary_eq_ok_iff.2 ⟨l, r, [], [], operator, hl _ _ _ hsignature hleft,
    hr _ _ _ hsignature hright, binaryOp_congr hop hoperator, rfl, rfl⟩

/-- Tokens alike those of a phrase are a phrase that agrees with it. -/
theorem exists_phrase_of_alike {s : Nonterminal} (d : Phrase s)
    (h : List.Forall₂ Token.Alike d.tokens us) :
    ∃ d' : Phrase s, d'.tokens = us ∧ Agree d.tree d'.tree := by
  -- the derivation is rebuilt rule by rule over the other tokens
  induction d generalizing us with
  | operand inner ih =>
    obtain ⟨d', htokens, hagree⟩ := ih h
    exact ⟨.operand d', htokens, hagree⟩
  | primary inner ih =>
    obtain ⟨d', htokens, hagree⟩ := ih h
    exact ⟨.primary d', htokens, hagree⟩
  | number t =>
    obtain ⟨u, _, hu, ⟨⟩, rfl⟩ := List.forall₂_cons_left_iff.1 h
    exact ⟨.number ⟨u, hu.kind.trans t.property⟩, rfl, agree_number hu t.property⟩
  | boolean t =>
    obtain ⟨u, _, hu, ⟨⟩, rfl⟩ := List.forall₂_cons_left_iff.1 h
    exact ⟨.boolean ⟨u, hu.kind.trans t.property⟩, rfl,
      agree_boolean (hu.text (by simp [t.property]))⟩
  | var t =>
    obtain ⟨u, _, hu, ⟨⟩, rfl⟩ := List.forall₂_cons_left_iff.1 h
    exact ⟨.var ⟨u, hu.kind.trans t.property⟩, rfl, agree_var (hu.text (by simp [t.property]))⟩
  | unary op sign inner ih =>
    obtain ⟨u, us, hu, hus, rfl⟩ := List.forall₂_cons_left_iff.1 h
    obtain ⟨d', rfl, hagree⟩ := ih hus
    exact ⟨.unary op ⟨u, hu.kind.trans sign.property⟩ d', rfl, hagree.unary op _ _⟩
  | parens opening inner closing ih =>
    obtain ⟨u, _, hu, hrest, rfl⟩ := List.forall₂_cons_left_iff.1 h
    obtain ⟨us, _, rfl, hus, hclosing⟩ := exists_append_of_forall₂ hrest
    obtain ⟨v, _, hv, ⟨⟩, rfl⟩ := List.forall₂_cons_left_iff.1 hclosing
    obtain ⟨d', rfl, hagree⟩ := ih hus
    exact ⟨.parens ⟨u, hu.kind.trans opening.property⟩ d' ⟨v, hv.kind.trans closing.property⟩, rfl,
      hagree.parens _ _⟩
  | @binary cls left op right ihl ihr =>
    obtain ⟨us, _, rfl, hus, hrest⟩ := exists_append_of_forall₂ h
    obtain ⟨u, vs, hu, hvs, rfl⟩ := List.forall₂_cons_left_iff.1 hrest
    obtain ⟨l, rfl, hl⟩ := ihl hus
    obtain ⟨r, rfl, hr⟩ := ihr hvs
    -- only numbers may be spelled in another way, and no operator is a number
    have htext : u.text = op.val.text := by
      refine hu.text fun hkind => ?_
      have hop := op.property
      rw [hkind] at hop
      cases cls <;> exact absurd hop (by decide)
    exact ⟨.binary l ⟨u, hu.kind ▸ op.property⟩ r, rfl, hl.binary hr cls htext _ _⟩

section Statements

variable {s s' next : State} {type : ScalarType} {name : String} {p p' : Option Position}
  {value value' : Tree} {e : Expr}

/-- A value that is stored is stored again in an alike state. -/
theorem storable_of_agree (hs : s.Alike s') (h : Agree value value')
    (hvalue : storable s type p value = .ok (e, [])) :
    storable s' type p' value' = .ok (e, []) := by
  obtain ⟨hvalue, hnone⟩ := storable_eq_ok_iff.1 hvalue
  exact storable_eq_ok_iff.2
    ⟨h _ _ _ hs.signature hvalue, (incompatible?_eq_none_congr hs).1 hnone⟩

/-- A declaration that is accepted is accepted again. -/
theorem declaration_of_agree (hs : s.Alike s') (h : Agree value value')
    (hnext : declaration s type name p value = .next next e []) :
    ∃ next', declaration s' type name p' value' = .next next' e [] ∧ next.Alike next' := by
  obtain ⟨hnew, v, hvalue, rfl, rfl⟩ := declaration_eq_next_iff.1 hnext
  have henter := hs.enter name type p p'
  exact ⟨_, declaration_eq_next_iff.2 ⟨(SymbolTable.find?_eq_none_congr hs.signature name).1 hnew,
    v, storable_of_agree henter h hvalue, rfl, rfl⟩, henter.store name type v⟩

/-- An assignment that is accepted is accepted again. -/
theorem assignment_of_agree (hs : s.Alike s') (h : Agree value value')
    (hnext : assignment s name p value = .next next e []) :
    ∃ next', assignment s' name p' value' = .next next' e [] ∧ next.Alike next' := by
  obtain ⟨type, v, htype, hvalue, rfl, rfl⟩ := assignment_eq_next_iff.1 hnext
  rw [SymbolTable.typeOf?_congr hs.signature] at htype
  exact ⟨_, assignment_eq_next_iff.2 ⟨type, v, htype, storable_of_agree hs h hvalue, rfl, rfl⟩,
    hs.store name type v⟩

end Statements

/-- Tokens alike those of a statement are a statement that is accepted as the first one is. -/
theorem exists_statement_of_alike (d : Statement) (h : List.Forall₂ Token.Alike d.tokens us) :
    ∃ d' : Statement, d'.tokens = us ∧ ∀ {s s' next : State} {e : Expr}, s.Alike s' →
      statement s d.tree = .next next e [] →
        ∃ next', statement s' d'.tree = .next next' e [] ∧ next.Alike next' := by
  cases d with
  | declaration type name assign value =>
    obtain ⟨type', _, htype, hafterType, rfl⟩ := List.forall₂_cons_left_iff.1 h
    obtain ⟨name', _, hname, hafterName, rfl⟩ := List.forall₂_cons_left_iff.1 hafterType
    obtain ⟨assign', _, hassign, htokens, rfl⟩ := List.forall₂_cons_left_iff.1 hafterName
    obtain ⟨value', rfl, hagree⟩ := exists_phrase_of_alike value htokens
    refine ⟨.declaration ⟨type', htype.kind.trans type.property⟩
      ⟨name', hname.kind.trans name.property⟩ ⟨assign', hassign.kind.trans assign.property⟩ value',
      rfl, fun {s s' next e} hs hstatement => ?_⟩
    have htypeText : type'.text = type.val.text := htype.text (by simp [type.property])
    have hnameText : name'.text = name.val.text := hname.text (by simp [name.property])
    obtain ⟨scalarType, hscalar, hnext⟩ := exists_declaration_of_statement hstatement
    rw [statement_declaration s' _ _ _ _ (htypeText ▸ hscalar), hnameText]
    exact declaration_of_agree hs hagree hnext
  | assignment name assign value =>
    obtain ⟨name', _, hname, hafterName, rfl⟩ := List.forall₂_cons_left_iff.1 h
    obtain ⟨assign', _, hassign, htokens, rfl⟩ := List.forall₂_cons_left_iff.1 hafterName
    obtain ⟨value', rfl, hagree⟩ := exists_phrase_of_alike value htokens
    refine ⟨.assignment ⟨name', hname.kind.trans name.property⟩
      ⟨assign', hassign.kind.trans assign.property⟩ value', rfl,
      fun {s s' next e} hs hstatement => ?_⟩
    have hnameText : name'.text = name.val.text := hname.text (by simp [name.property])
    rw [statement_assignment] at hstatement
    rw [statement_assignment, hnameText]
    exact assignment_of_agree hs hagree hstatement
  | expression value =>
    obtain ⟨value', rfl, hagree⟩ := exists_phrase_of_alike value h
    refine ⟨.expression value', rfl, fun {s s' next e} hs hstatement => ?_⟩
    obtain ⟨rfl, hvalue⟩ := statement_expression_eq_next_iff.1 hstatement
    have hvalue' := hagree _ _ _ hs.signature hvalue
    exact ⟨s', statement_expression_eq_next_iff.2 ⟨rfl, hvalue'⟩, hs⟩

/-- Tokens alike those of a program are a program that is accepted as the first one is. -/
theorem exists_derivation_of_alike (d : Derivation) (h : List.Forall₂ Token.Alike d.tokens us) :
    ∃ d' : Derivation, d'.tokens = us ∧ ∀ {s s' final : State} {es : List Expr}, s.Alike s' →
      run s d.statements = ⟨final, .ok (es, [])⟩ →
        ∃ final', run s' d'.statements = ⟨final', .ok (es, [])⟩ ∧ final.Alike final' := by
  induction d generalizing us with
  | nil =>
    cases h
    refine ⟨[], rfl, fun {s s' final es} hs hrun => ?_⟩
    cases hrun
    exact ⟨s', rfl, hs⟩
  | cons statement d ih =>
    rw [Derivation.tokens_cons] at h
    obtain ⟨us, _, rfl, hus, hrest⟩ := exists_append_of_forall₂ h
    obtain ⟨semicolon, vs, hsemicolon, hvs, rfl⟩ := List.forall₂_cons_left_iff.1 hrest
    obtain ⟨first, rfl, hfirst⟩ := exists_statement_of_alike statement.1 hus
    obtain ⟨d', rfl, hd'⟩ := ih hvs
    refine ⟨(first, ⟨semicolon, hsemicolon.kind.trans statement.2.property⟩) :: d',
      Derivation.tokens_cons _ _ _, fun {s s' final es} hs hrun => ?_⟩
    obtain ⟨inner, e, later, hstatement, hlater, rfl⟩ := run_cons_eq_iff.1 hrun
    obtain ⟨inner', hstatement', hinner⟩ := hfirst hs hstatement
    obtain ⟨final', hlater', hfinal⟩ := hd' hinner hlater
    exact ⟨final', run_cons_eq_iff.2 ⟨inner', e, later, hstatement', hlater', rfl⟩, hfinal⟩

end Analysis

namespace Report

open ScalarLang.Lexing

/-- Writing is a fixpoint of compilation: the text of an accepted program has no syntax errors and
is accepted as the same program, with the same variables in the same order, and so it is written in
the same way. -/
theorem ofSource_encode_text {filename : String} {source : List UInt8} {v : Verdict}
    {program : Program} (hv : (ofSource filename source).verdict = some v)
    (hprogram : v.program = some program) (filename' : String) :
    ∃ v', ofSource filename' (Utf8.encode program.text.toList) = ⟨filename', [], some v'⟩ ∧
      v'.rejected = false ∧ v'.program = some program ∧
        v'.symbols.signature = v.symbols.signature ∧
          v'.program.map (·.text) = some program.text := by
  obtain ⟨d, position, s, -, htokens, hrun, rfl⟩ := exists_derivation_of_ofSource hv hprogram
  have hspelled := Parse.spelled_of_tokens_eq htokens
  -- the text is cut into tokens alike, they have a derivation, and its analysis agrees
  obtain ⟨us, hus, position', hscan⟩ := Analysis.scan_text d hspelled hrun Position.start
  obtain ⟨d', rfl, hd'⟩ := Analysis.exists_derivation_of_alike d hus
  obtain ⟨s', hrun', hs'⟩ := hd' ⟨rfl, rfl⟩ hrun
  have hlexing : ofChars (Utf8.decode (Utf8.encode program.text.toList))
      = ⟨d'.tokens, .endOfInput position'⟩ := by
    rw [Utf8.decode_encode]
    exact hscan
  -- none of the tokens of the text is a comment, so they are its sentence
  have hsentence : d'.tokens = Parse.sentence (Utf8.encode program.text.toList) := by
    rw [Parse.sentence, hlexing, List.filter_eq_self.2]
    intro u hu
    obtain ⟨t, ht, halike⟩ := exists_mem_of_forall₂ hus hu
    have hcomment := (Lexeme.kind_of_spelled (hspelled t ht)).1
    rw [← halike.kind] at hcomment
    simpa [Token.isComment] using hcomment
  have hending : ∃ position, (ofChars (Utf8.decode (Utf8.encode program.text.toList))).ending
      = .endOfInput position := ⟨position', by rw [hlexing]⟩
  obtain ⟨herrors, hstatements⟩ :=
    Parse.ofSource_iff_derivation.2 ⟨hending, d', hsentence, rfl⟩
  have hv' : (ofSource filename' (Utf8.encode program.text.toList)).verdict
      = some ⟨some program, [], none, s'.symbols⟩ :=
    (ofSource_program_iff.2 ⟨herrors, s', hstatements ▸ hrun', rfl⟩).1
  refine ⟨⟨some program, [], none, s'.symbols⟩, ?_, rfl, rfl, hs'.signature.symm, rfl⟩
  rw [ofSource_of_errors_eq_nil herrors] at hv' ⊢
  rw [← hv']

/-- A source that declares, reads and writes a variable. -/
theorem ofSource_encode_text_sample :
    let source := Utf8.encode "float x = 2; x = -x + 0.10; // y".toList
    let program : Program :=
      ⟨[.declaration "x" .float (.number (.ofRatio false 2 1) true),
        .assignment "x" (.binary (.additive "+") (.unary .minus (.var "x"))
          (.number (.ofRatio false 1 10) false))]⟩
    let v : Verdict := ⟨some program, [], none, ⟨[⟨"x", .float, some ⟨1, 7⟩⟩]⟩⟩
    (ofSource "" source).verdict = some v ∧ v.program = some program ∧
      ∃ v', ofSource "" (Utf8.encode program.text.toList) = ⟨"", [], some v'⟩ ∧
        v'.rejected = false ∧ v'.program = some program ∧
          v'.symbols.signature = v.symbols.signature ∧
            v'.program.map (·.text) = some program.text := by
  intro source program v
  have hv : (ofSource "" source).verdict = some v := by decide +kernel
  have hprogram : v.program = some program := rfl
  exact ⟨hv, hprogram, ofSource_encode_text hv hprogram ""⟩

end Report

end ScalarLang
