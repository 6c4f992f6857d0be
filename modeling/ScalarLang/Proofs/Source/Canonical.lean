import ScalarLang.Proofs.Number.Signed
import ScalarLang.Proofs.Source.Rendering

/-!
# Canonical programs are read back

Writing a program adds no parentheses, so a text can be read back as the program only if operands
stand where the grammar lets them stand without any. Programs of that form are canonical, whether
they make sense or not. The module introduces:

* `Expr.Canonical`, `Expr.CanonicalStatement`, `Program.Canonical`: every operand binds tightly
  enough for its place, and names, operators, types and numbers are such as can be read;
* `Tree.toExpr?`, `Tree.toProgram?`: the conversion of syntax trees node by node, which asks neither
  for declarations nor for types;
* `Prints s e`: the text of the expression is read as a phrase of the nonterminal that is converted
  to the expression.

`prints_of_canonical` is proved along the expression, and `canonical_of_phrase` is its converse for
whatever a source is analysed to.
-/

namespace ScalarLang

open ScalarLang.Grammar ScalarLang.Lexeme ScalarLang.Lexing

/-! ## Canonical programs -/

/-- The operators that there are. -/
def BinaryOp.Legal : BinaryOp → Prop
  | disjunction | conjunction => True
  | additive symbol => symbol ∈ ["+", "-"]
  | multiplicative symbol => symbol ∈ ["*", "/", "%"]

/-- How tightly an expression binds: by its operator, or most tightly if it has none. -/
def Expr.tightness : Expr → Nat
  | binary op _ _ => op.cls.level
  | unary _ _ => 4
  | _ => 5

/-- The names that can be read: words other than keywords. -/
def IsName (name : String) : Prop :=
  Spelled .identifier name.toList

/-- The expressions that can be read from their text. -/
def Expr.Canonical : Expr → Prop
  | number value isInteger => IsLiteral value isInteger
  | boolean _ => True
  | var name => IsName name
  | parens inner => inner.Canonical
  | unary _ operand => operand.Canonical ∧ 4 ≤ operand.tightness
  | binary op left right => op.Legal ∧
      (left.Canonical ∧ op.cls.level ≤ left.tightness) ∧
        right.Canonical ∧ op.cls.level < right.tightness
  | declaration _ _ _ | assignment _ _ => False

/-- The statements that can be read from their text. -/
def Expr.CanonicalStatement : Expr → Prop
  | declaration name type value => type ∈ [.int, .float, .bool] ∧ IsName name ∧ value.Canonical
  | assignment name value => IsName name ∧ value.Canonical
  | e => e.Canonical

/-- The programs that can be read from their text. -/
def Program.Canonical (program : Program) : Prop :=
  ∀ e ∈ program.statements, e.CanonicalStatement

/-! ## Conversion node by node -/

/-- The expression that a tree is the syntax of, if its nodes are built as their kinds demand. -/
def Tree.toExpr? : Tree → Option Expr
  | .node .number text _ _ => Analysis.numberLiteral? text
  | .node .boolean text _ _ => Analysis.booleanLiteral? text
  | .node .var name _ _ => some (.var name)
  | .node .parens _ _ [inner] => inner.toExpr?.map .parens
  | .node (.unary op) _ _ [operand] => operand.toExpr?.map (.unary op)
  | .node (.binary cls) _ _ [left, op, right] => do
    let op ← (Analysis.binaryOp cls op).toOption
    let left ← left.toExpr?
    let right ← right.toExpr?
    return .binary op left right
  | .node .declaration _ _ [.node _ keyword _ _, .node _ name _ _, value] => do
    let type ← ScalarType.ofName? keyword
    let value ← value.toExpr?
    return .declaration name type value
  | .node .assignment _ _ [.node _ name _ _, value] => value.toExpr?.map (.assignment name)
  | _ => none

/-- The program that a tree is the syntax of. -/
def Tree.toProgram? : Tree → Option Program
  | .node .program _ _ statements => (statements.mapM Tree.toExpr?).map Program.mk
  | _ => none

/-- What analysis makes of a phrase is its conversion. -/
theorem toExpr?_of_expression {s : Nonterminal} (d : Phrase s) {symbols : SymbolTable} {e : Expr}
    {diagnostics : List Diagnostic}
    (h : Analysis.expression symbols d.tree = .ok (e, diagnostics)) : d.tree.toExpr? = some e := by
  induction d generalizing e diagnostics with
  | operand inner ih => exact ih h
  | primary inner ih => exact ih h
  | number literal => exact (Analysis.expression_number_eq_ok_iff.1 h).1
  | boolean literal => exact (Analysis.expression_boolean_eq_ok_iff.1 h).1
  | var name =>
    cases h
    rfl
  | unary op sign inner ih =>
    obtain ⟨operand, hoperand, rfl, -⟩ := Analysis.expression_unary_eq_ok_iff.1 h
    simp [Phrase.tree, Tree.toExpr?, ih hoperand]
  | parens opening inner closing ih =>
    obtain ⟨operand, hoperand, rfl⟩ := Analysis.expression_parens_eq_ok_iff.1 h
    simp [Phrase.tree, Tree.toExpr?, ih hoperand]
  | binary left op right ihl ihr =>
    obtain ⟨l, r, _, _, operator, hleft, hright, hop, rfl, -⟩ :=
      Analysis.expression_binary_eq_ok_iff.1 h
    simp [Phrase.tree, Tree.toExpr?, ihl hleft, ihr hright, hop, Except.toOption]

/-! ## Texts of canonical expressions -/

/-- How tightly the phrases of a nonterminal bind at least. -/
def Grammar.Nonterminal.tightness : Nonterminal → Nat
  | chain cls => cls.level
  | unary => 4
  | primary => 5

namespace Grammar.Nonterminal

/-- The operands of a class bind more tightly by one. -/
theorem tightness_operand (cls : BinaryClass) : (operand cls).tightness = cls.level + 1 := by
  cases cls <;> rfl

/-- Nothing binds more tightly than an operand without an operator. -/
theorem tightness_le (s : Nonterminal) : s.tightness ≤ 5 := by
  rcases s with cls | _ | _
  · cases cls <;> decide
  · decide
  · decide

/-- Each level belongs to one nonterminal. -/
theorem eq_of_tightness_eq {s s' : Nonterminal} (h : s'.tightness = s.tightness) : s' = s := by
  have hchain (cls cls' : BinaryClass) : (chain cls').tightness = (chain cls).tightness →
      cls' = cls := by
    cases cls <;> cases cls' <;> decide
  rcases s with cls | _ | _ <;> rcases s' with cls' | _ | _
  · rw [hchain cls cls' h]
  · cases cls <;> cases h
  · cases cls <;> cases h
  · cases cls' <;> cases h
  · rfl
  · cases h
  · cases cls' <;> cases h
  · cases h
  · rfl

end Grammar.Nonterminal

/-- In front of anything that cannot extend it, the text of the expression is cut into the tokens of
a phrase that is converted to the expression. -/
def Prints (s : Nonterminal) (e : Expr) : Prop :=
  ∀ p rest, Stops rest → ∃ d : Phrase s, d.tree.toExpr? = some e ∧
    scan 0 p (e.text.toList ++ rest) = (scan 0 (p.after e.text.toList) rest).prepend d.tokens

namespace Prints

variable {s : Nonterminal} {e left right : Expr}

/-- An expression that is one token. -/
theorem token {kind : Token.Kind} (hspelled : Spelled kind e.text.toList)
    (d : Terminal kind → Phrase .primary) (htokens : ∀ t, (d t).tokens = [t.val])
    (htree : ∀ t, t.val.text = e.text → (d t).tree.toExpr? = some e) : Prints .primary e := by
  intro p rest hrest
  refine ⟨d ⟨⟨kind, e.text, some p⟩, rfl⟩, htree _ rfl, ?_⟩
  rw [scan_of_spelled hspelled hrest, htokens, String.ofList_toList]

/-- Parentheses around an expression. -/
theorem parens (h : Prints .expression e) : Prints .primary (.parens e) := by
  intro p rest hrest
  obtain ⟨d, htree, hscan⟩ := h (p.after ['(']) (')' :: rest) (.inr (.inl rfl))
  let opening : Terminal .openParen := ⟨⟨.openParen, "(", some p⟩, rfl⟩
  let closing : Terminal .closeParen :=
    ⟨⟨.closeParen, ")", some ((p.after ['(']).after e.text.toList)⟩, rfl⟩
  refine ⟨.parens opening d closing, by simp [Phrase.tree, Tree.toExpr?, htree], ?_⟩
  have htext : (Expr.parens e).text.toList = ['('] ++ (e.text.toList ++ [')']) := by
    simp [Expr.text]
  have hopening : symbol? .openParen = some ['('] := rfl
  have hclosing : symbol? .closeParen = some [')'] := rfl
  have hclose := scan_of_symbol hclosing (by decide) ((p.after ['(']).after e.text.toList) rest
  rw [List.singleton_append] at hclose
  rw [htext, List.append_assoc, List.append_assoc, scan_of_symbol hopening (by decide),
    List.singleton_append, hscan, hclose, prepend_prepend, prepend_prepend, after_append,
    after_append]
  rfl

/-- A unary operator before its operand. -/
theorem unary (op : UnaryOp) (h : Prints .unary e) : Prints .unary (.unary op e) := by
  intro p rest hrest
  obtain ⟨d, htree, hscan⟩ := h (p.after op.symbol.toList) rest hrest
  have hsymbol : symbol? (unaryOperator op) = some op.symbol.toList := by cases op <;> rfl
  have hslash : op.symbol.toList ≠ ['/'] := by cases op <;> decide
  let sign : Terminal (unaryOperator op) := ⟨⟨unaryOperator op, op.symbol, some p⟩, rfl⟩
  refine ⟨.unary op sign d, by simp [Phrase.tree, Tree.toExpr?, htree], ?_⟩
  have htext : (Expr.unary op e).text.toList = op.symbol.toList ++ e.text.toList := by
    simp [Expr.text]
  rw [htext, List.append_assoc, scan_of_symbol hsymbol hslash, hscan, prepend_prepend,
    after_append, String.ofList_toList]
  rfl

/-- The token of a legal operator. -/
theorem exists_operator {op : BinaryOp} (h : op.Legal) :
    ∃ kind ∈ operators op.cls, Spelled kind op.symbol.toList ∧
      ∀ position, Analysis.binaryOp op.cls (leaf .token ⟨kind, op.symbol, position⟩) = .ok op := by
  cases op with
  | disjunction => exact ⟨.or, by decide, .symbol rfl, fun _ => rfl⟩
  | conjunction => exact ⟨.and, by decide, .symbol rfl, fun _ => rfl⟩
  | additive symbol =>
    simp only [BinaryOp.Legal, List.mem_cons, List.not_mem_nil, or_false] at h
    rcases h with rfl | rfl
    · exact ⟨.plus, by decide, .symbol rfl, fun _ => rfl⟩
    · exact ⟨.minus, by decide, .symbol rfl, fun _ => rfl⟩
  | multiplicative symbol =>
    simp only [BinaryOp.Legal, List.mem_cons, List.not_mem_nil, or_false] at h
    rcases h with rfl | rfl | rfl
    · exact ⟨.times, by decide, .symbol rfl, fun _ => rfl⟩
    · exact ⟨.divide, by decide, .symbol rfl, fun _ => rfl⟩
    · exact ⟨.modulo, by decide, .symbol rfl, fun _ => rfl⟩

/-- A binary operator between its operands, with a space on either side. -/
theorem binary {op : BinaryOp} (hop : op.Legal) (hleft : Prints (.chain op.cls) left)
    (hright : Prints (.operand op.cls) right) :
    Prints (.chain op.cls) (.binary op left right) := by
  intro p rest hrest
  obtain ⟨kind, hkind, hspelled, hconverted⟩ := exists_operator hop
  -- the places of the operator and of the right operand
  let p₁ := (p.after left.text.toList).advance ' '
  let p₂ := (p₁.after op.symbol.toList).advance ' '
  obtain ⟨l, hl, hscanl⟩ :=
    hleft p (' ' :: (op.symbol.toList ++ ' ' :: (right.text.toList ++ rest))) (.inl rfl)
  obtain ⟨r, hr, hscanr⟩ := hright p₂ rest hrest
  refine ⟨.binary l ⟨⟨kind, op.symbol, some p₁⟩, hkind⟩ r, ?_, ?_⟩
  · simp [Phrase.tree, Tree.toExpr?, hl, hr, hconverted, Except.toOption]
  · have htext : (Expr.binary op left right).text.toList
        = left.text.toList ++ ' ' :: (op.symbol.toList ++ ' ' :: right.text.toList) := by
      simp [Expr.text]
    rw [htext, List.append_assoc, List.cons_append, List.append_assoc, List.cons_append, hscanl,
      scan_blank (by decide), scan_spelled_space hspelled, hscanr, prepend_prepend,
      prepend_prepend, String.ofList_toList, after_space, after_space, Phrase.tokens,
      List.append_assoc, List.singleton_append]

/-- One operand is a chain. -/
theorem operand {cls : BinaryClass} (h : Prints (.operand cls) e) : Prints (.chain cls) e := by
  intro p rest hrest
  obtain ⟨d, htree, hscan⟩ := h p rest hrest
  exact ⟨.operand d, htree, hscan⟩

/-- An operand may have no unary operator. -/
theorem primary (h : Prints .primary e) : Prints .unary e := by
  intro p rest hrest
  obtain ⟨d, htree, hscan⟩ := h p rest hrest
  exact ⟨.primary d, htree, hscan⟩

/-- What binds tightly can stand where less would do. -/
theorem mono {s' : Nonterminal} (h : Prints s' e) (hle : s.tightness ≤ s'.tightness) :
    Prints s e := by
  -- one rule of the grammar for each level between the two
  obtain ⟨n, hn⟩ := Nat.exists_eq_add_of_le hle
  clear hle
  induction n generalizing s with
  | zero => exact Nonterminal.eq_of_tightness_eq hn ▸ h
  | succ n ih =>
    cases s with
    | chain cls =>
      apply operand
      apply ih
      rw [hn, Nonterminal.tightness_operand, Nonterminal.tightness]
      omega
    | unary =>
      apply primary
      apply ih
      rw [hn, Nonterminal.tightness, Nonterminal.tightness]
      omega
    | primary =>
      have hmax := s'.tightness_le
      rw [hn, Nonterminal.tightness] at hmax
      omega

end Prints

/-- The text of a canonical expression is read wherever it binds tightly enough. -/
theorem prints_of_canonical {e : Expr} (h : e.Canonical) {s : Nonterminal}
    (hle : s.tightness ≤ e.tightness) : Prints s e := by
  -- each constructor has the nonterminal that it is derived from; the place asks for no more
  induction e generalizing s with
  | number value isInteger =>
    have hspelled : Spelled .number (Expr.number value isInteger).text.toList :=
      .number h.isNumeral_numberText
    have hprints : Prints .primary (.number value isInteger) := by
      apply Prints.token hspelled .number (fun _ => rfl)
      intro t ht
      show Analysis.numberLiteral? t.val.text = _
      rw [ht]
      exact (writes_numberText h).numberLiteral?
    exact hprints.mono hle
  | boolean value =>
    have hspelled : Spelled .boolean (Expr.boolean value).text.toList := by
      cases value
      · exact @Spelled.of_all 'f' ['a', 'l', 's', 'e'] (by decide) (by decide)
      · exact @Spelled.of_all 't' ['r', 'u', 'e'] (by decide) (by decide)
    have hprints : Prints .primary (.boolean value) := by
      apply Prints.token hspelled .boolean (fun _ => rfl)
      intro t ht
      show Analysis.booleanLiteral? t.val.text = _
      rw [ht]
      cases value <;> rfl
    exact hprints.mono hle
  | var name =>
    have hspelled : Spelled .identifier (Expr.var name).text.toList := h
    have hprints : Prints .primary (.var name) := by
      apply Prints.token hspelled .var (fun _ => rfl)
      intro t ht
      exact congrArg (some ∘ Expr.var) ht
    exact hprints.mono hle
  | parens inner ih =>
    have hinner : Prints .expression inner := ih h (Nat.zero_le _)
    exact hinner.parens.mono hle
  | unary op operand ih =>
    have hoperand : Prints .unary operand := ih h.1 h.2
    exact (hoperand.unary op).mono hle
  | binary op left right ihl ihr =>
    obtain ⟨hop, ⟨hleft, hlevel⟩, hright, hlevel'⟩ := h
    have hl : Prints (.chain op.cls) left := ihl hleft hlevel
    have hr : Prints (.operand op.cls) right := by
      apply ihr hright
      rw [Nonterminal.tightness_operand]
      exact hlevel'
    exact (Prints.binary hop hl hr).mono hle
  | declaration | assignment => exact h.elim

/-- The text of a canonical expression is read as an expression. -/
theorem prints_expression {e : Expr} (h : e.Canonical) : Prints .expression e :=
  prints_of_canonical h (Nat.zero_le _)

/-! ## Texts of canonical programs -/

/-- The keyword of a type. -/
theorem spelled_name {type : ScalarType} (h : type ∈ [.int, .float, .bool]) :
    Spelled .typeName type.name.toList ∧ ScalarType.ofName? type.name = some type := by
  simp only [List.mem_cons, List.not_mem_nil, or_false] at h
  rcases h with rfl | rfl | rfl
  · exact ⟨@Spelled.of_all 'i' ['n', 't'] (by decide) (by decide), rfl⟩
  · exact ⟨@Spelled.of_all 'f' ['l', 'o', 'a', 't'] (by decide) (by decide), rfl⟩
  · exact ⟨@Spelled.of_all 'b' ['o', 'o', 'l'] (by decide) (by decide), rfl⟩

/-- The text of a name that is given a canonical value. -/
theorem exists_binding_of_canonical {name : String} {value : Expr} (hname : IsName name)
    (hvalue : value.Canonical) (p : Position) {rest : List Char} (hrest : Stops rest) :
    ∃ (target : Terminal .identifier) (assign : Terminal .assign) (d : Phrase .expression),
      target.val.text = name ∧ d.tree.toExpr? = some value ∧
        scan 0 p ((Expr.assignment name value).text.toList ++ rest)
          = (scan 0 (p.after (Expr.assignment name value).text.toList) rest).prepend
              (target.val :: assign.val :: d.tokens) := by
  have hassign : Spelled .assign "=".toList := .symbol rfl
  let q := (p.after name.toList).advance ' '
  obtain ⟨d, htree, hscan⟩ :=
    prints_expression hvalue ((q.after "=".toList).advance ' ') rest hrest
  refine ⟨⟨⟨.identifier, name, some p⟩, rfl⟩, ⟨⟨.assign, "=", some q⟩, rfl⟩, d, rfl, htree, ?_⟩
  have htext : (Expr.assignment name value).text.toList
      = name.toList ++ ' ' :: ("=".toList ++ ' ' :: value.text.toList) := by
    simp [Expr.text]
  rw [htext, List.append_assoc, List.cons_append, List.append_assoc, List.cons_append,
    scan_spelled_space hname, scan_spelled_space hassign, hscan, prepend_prepend, prepend_prepend,
    String.ofList_toList, String.ofList_toList, after_space, after_space]
  rfl

/-- The text of a canonical statement is read as the statement. -/
theorem exists_statement_of_canonical {e : Expr} (h : e.CanonicalStatement) (p : Position)
    {rest : List Char} (hrest : Stops rest) :
    ∃ d : Statement, d.tree.toExpr? = some e ∧
      scan 0 p (e.text.toList ++ rest)
        = (scan 0 (p.after e.text.toList) rest).prepend d.tokens := by
  cases e with
  | declaration name type value =>
    obtain ⟨htype, hname, hvalue⟩ := h
    obtain ⟨hspelled, hofName⟩ := spelled_name htype
    obtain ⟨target, assign, d, rfl, htree, hscan⟩ := exists_binding_of_canonical hname hvalue
      ((p.after type.name.toList).advance ' ') hrest
    -- behind the type a declaration is written as an assignment
    refine ⟨.declaration ⟨⟨.typeName, type.name, some p⟩, rfl⟩ target assign d, ?_, ?_⟩
    · simp [Statement.tree, leaf, Tree.leaf, Tree.toExpr?, hofName, htree]
    · have htext : (Expr.declaration target.val.text type value).text.toList
          = type.name.toList ++ ' ' :: (Expr.assignment target.val.text value).text.toList := by
        simp [Expr.text]
      rw [htext, List.append_assoc, List.cons_append, scan_spelled_space hspelled, hscan,
        prepend_prepend, String.ofList_toList, after_space]
      rfl
  | assignment name value =>
    obtain ⟨target, assign, d, rfl, htree, hscan⟩ :=
      exists_binding_of_canonical h.1 h.2 p hrest
    refine ⟨.assignment target assign d, ?_, hscan⟩
    simp [Statement.tree, leaf, Tree.leaf, Tree.toExpr?, htree]
  | number | boolean | var | parens | unary | binary =>
    obtain ⟨d, htree, hscan⟩ := prints_expression h p rest hrest
    exact ⟨.expression d, htree, hscan⟩

/-- The text of a canonical program is read as its statements. -/
theorem exists_derivation_of_canonical {es : List Expr} (h : ∀ e ∈ es, e.CanonicalStatement)
    (p : Position) :
    ∃ d : Derivation, d.statements.mapM Tree.toExpr? = some es ∧
      ∃ position, scan 0 p (Program.text ⟨es⟩).toList = ⟨d.tokens, .endOfInput position⟩ := by
  induction es generalizing p with
  | nil => exact ⟨[], rfl, p, rfl⟩
  | cons e es ih =>
    obtain ⟨hfirst, hlater⟩ := List.forall_mem_cons.1 h
    let q := p.after e.text.toList
    have hsymbol : symbol? .semicolon = some [';'] := rfl
    have hstops : Stops ([';'] ++ '\n' :: (Program.text ⟨es⟩).toList) := .inr (.inr rfl)
    obtain ⟨statement, htree, hscan⟩ := exists_statement_of_canonical hfirst p hstops
    obtain ⟨d, hd, position, hscan'⟩ := ih hlater ((q.after [';']).advance '\n')
    refine ⟨(statement, ⟨⟨.semicolon, ";", some q⟩, rfl⟩) :: d, ?_, position, ?_⟩
    · show (statement.tree :: d.statements).mapM Tree.toExpr? = _
      simp [htree, hd]
    · have htext : (Program.text ⟨e :: es⟩).toList
          = e.text.toList ++ ([';'] ++ '\n' :: (Program.text ⟨es⟩).toList) := by
        simp [Program.text]
      rw [htext, hscan, scan_of_symbol hsymbol (by decide), scan_blank (by decide), hscan',
        prepend_prepend, Derivation.tokens_cons]
      simp [Lexing.prepend, q]

/-- The text of a canonical program has no syntax errors, and its tree is converted to the
program. -/
theorem ofSource_of_canonical {program : Program} (h : program.Canonical) :
    (Parse.ofSource (Utf8.encode program.text.toList)).errors = [] ∧
      (Parse.ofSource (Utf8.encode program.text.toList)).tree.toProgram? = some program := by
  obtain ⟨d, hconverted, position, hscan⟩ := exists_derivation_of_canonical h Position.start
  have hlexing : ofChars program.text.toList = ⟨d.tokens, .endOfInput position⟩ := hscan
  have houtcomes : (Parse.ofSource (Utf8.encode program.text.toList)).outcomes
      = d.statements.map .ok := by
    rw [Parse.ofSource, Utf8.decode_encode, hlexing, stream, Parse.ofTokens,
      Parse.outcomes_run_append]
    exact List.append_nil _
  have hstatements : (Parse.ofSource (Utf8.encode program.text.toList)).statements
      = d.statements := by
    rw [Parse.statements, houtcomes, List.filterMap_map]
    exact List.filterMap_some
  constructor
  · rw [Parse.errors, houtcomes, List.filterMap_map]
    exact List.filterMap_eq_nil_iff.2 fun _ _ => rfl
  · rw [Parse.tree, hstatements, Tree.toProgram?, hconverted]
    rfl

/-! ## Programs of sources -/

/-- Operators that are read are legal. -/
theorem legal_of_binaryOp {cls : BinaryClass} {t : Tree} {op : BinaryOp}
    (h : Analysis.binaryOp cls t = .ok op) : op.Legal ∧ op.cls = cls := by
  unfold Analysis.binaryOp at h
  split at h
  · cases h
    exact ⟨trivial, rfl⟩
  · cases h
    exact ⟨trivial, rfl⟩
  · split_ifs at h with hsymbol
    cases h
    exact ⟨by simpa [BinaryOp.Legal] using hsymbol, rfl⟩
  · split_ifs at h with hsymbol
    cases h
    exact ⟨by simpa [BinaryOp.Legal, or_assoc] using hsymbol, rfl⟩
  · cases h

/-- Names that are read are names. -/
theorem isName_of_spelled {name : Terminal .identifier}
    (h : Spelled name.val.kind name.val.text.toList) : IsName name.val.text := by
  rwa [name.property] at h

/-- What a phrase of a source is analysed to is canonical and binds as tightly as the phrase. -/
theorem canonical_of_phrase {s : Nonterminal} (d : Phrase s)
    (hspelled : ∀ t ∈ d.tokens, Spelled t.kind t.text.toList) {symbols : SymbolTable} {e : Expr}
    {diagnostics : List Diagnostic}
    (h : Analysis.expression symbols d.tree = .ok (e, diagnostics)) :
    e.Canonical ∧ s.tightness ≤ e.tightness := by
  -- a phrase that is one of the next nonterminal binds more tightly than it has to
  induction d generalizing e diagnostics with
  | @operand cls inner ih =>
    obtain ⟨hcanonical, hle⟩ := ih hspelled h
    rw [Nonterminal.tightness_operand] at hle
    exact ⟨hcanonical, Nat.le_of_succ_le hle⟩
  | primary inner ih =>
    obtain ⟨hcanonical, hle⟩ := ih hspelled h
    exact ⟨hcanonical, Nat.le_of_succ_le hle⟩
  | number literal =>
    obtain ⟨hliteral, -⟩ := Analysis.expression_number_eq_ok_iff.1 h
    obtain ⟨v, hvalue, rfl⟩ := Option.map_eq_some_iff.1 hliteral
    have hnumeral := isNumeral_of_spelled (hspelled _ List.mem_cons_self) literal.property
    exact ⟨isLiteral_of_value? hnumeral hvalue, Nat.le_refl _⟩
  | boolean literal =>
    obtain ⟨hliteral, -⟩ := Analysis.expression_boolean_eq_ok_iff.1 h
    unfold Analysis.booleanLiteral? at hliteral
    split_ifs at hliteral
    · cases hliteral
      exact ⟨trivial, Nat.le_refl _⟩
    · cases hliteral
      exact ⟨trivial, Nat.le_refl _⟩
  | var name =>
    cases h
    exact ⟨isName_of_spelled (hspelled _ List.mem_cons_self), Nat.le_refl _⟩
  | unary op sign inner ih =>
    obtain ⟨operand, hoperand, rfl, -⟩ := Analysis.expression_unary_eq_ok_iff.1 h
    have hinner := ih (fun t ht => hspelled t (List.mem_cons_of_mem _ ht)) hoperand
    exact ⟨hinner, Nat.le_refl _⟩
  | parens opening inner closing ih =>
    obtain ⟨operand, hoperand, rfl⟩ := Analysis.expression_parens_eq_ok_iff.1 h
    have hinner := ih (fun t ht => hspelled t (by simp [Phrase.tokens, ht])) hoperand
    exact ⟨hinner.1, Nat.le_refl _⟩
  | binary left op right ihl ihr =>
    obtain ⟨l, r, _, _, operator, hleft, hright, hop, rfl, -⟩ :=
      Analysis.expression_binary_eq_ok_iff.1 h
    obtain ⟨hlegal, rfl⟩ := legal_of_binaryOp hop
    have hl := ihl (fun t ht => hspelled t (by simp [Phrase.tokens, ht])) hleft
    have hr := ihr (fun t ht => hspelled t (by simp [Phrase.tokens, ht])) hright
    rw [Nonterminal.tightness_operand] at hr
    exact ⟨⟨hlegal, hl, hr⟩, Nat.le_refl _⟩

/-- A canonical expression may be a statement. -/
theorem Expr.Canonical.statement {e : Expr} (h : e.Canonical) : e.CanonicalStatement := by
  cases e with
  | declaration | assignment => exact h.elim
  | number | boolean | var | parens | unary | binary => exact h

/-- What a statement of a source is analysed to is canonical, and the conversion of its tree. -/
theorem canonical_of_statement (d : Statement)
    (hspelled : ∀ t ∈ d.tokens, Spelled t.kind t.text.toList) {s s' : Analysis.State} {e : Expr}
    (h : Analysis.statement s d.tree = .next s' e []) :
    e.CanonicalStatement ∧ d.tree.toExpr? = some e := by
  cases d with
  | declaration type name assign value =>
    obtain ⟨scalarType, htype, hnext⟩ := Analysis.exists_declaration_of_statement h
    obtain ⟨-, v, hvalue, rfl, -⟩ := Analysis.declaration_eq_next_iff.1 hnext
    obtain ⟨hvalue, -⟩ := Analysis.storable_eq_ok_iff.1 hvalue
    have hcanonical := canonical_of_phrase value
      (fun t ht => hspelled t (by simp [Statement.tokens, ht])) hvalue
    -- the invalid type has no keyword
    have hvalid : scalarType ∈ [.int, .float, .bool] := by
      unfold ScalarType.ofName? at htype
      split_ifs at htype <;> cases htype <;> decide
    refine ⟨⟨hvalid, isName_of_spelled (hspelled _ (by simp [Statement.tokens])), hcanonical.1⟩, ?_⟩
    simp [Statement.tree, leaf, Tree.leaf, Tree.toExpr?, htype, toExpr?_of_expression value hvalue]
  | assignment name assign value =>
    rw [Analysis.statement_assignment, Analysis.assignment_eq_next_iff] at h
    obtain ⟨type, v, -, hvalue, rfl, -⟩ := h
    obtain ⟨hvalue, -⟩ := Analysis.storable_eq_ok_iff.1 hvalue
    have hcanonical := canonical_of_phrase value
      (fun t ht => hspelled t (by simp [Statement.tokens, ht])) hvalue
    refine ⟨⟨isName_of_spelled (hspelled _ (by simp [Statement.tokens])), hcanonical.1⟩, ?_⟩
    simp [Statement.tree, leaf, Tree.leaf, Tree.toExpr?, toExpr?_of_expression value hvalue]
  | expression value =>
    obtain ⟨-, hvalue⟩ := Analysis.statement_expression_eq_next_iff.1 h
    exact ⟨(canonical_of_phrase value hspelled hvalue).1.statement,
      toExpr?_of_expression value hvalue⟩

/-- What the statements of a source are analysed to is canonical, and the conversion of their
trees. -/
theorem canonical_of_run (d : Derivation)
    (hspelled : ∀ t ∈ d.tokens, Spelled t.kind t.text.toList) {s s' : Analysis.State}
    {es : List Expr} (h : Analysis.run s d.statements = ⟨s', .ok (es, [])⟩) :
    (∀ e ∈ es, e.CanonicalStatement) ∧ d.statements.mapM Tree.toExpr? = some es := by
  induction d generalizing s es with
  | nil =>
    cases h
    exact ⟨by simp, rfl⟩
  | cons statement d ih =>
    obtain ⟨inner, e, later, hstatement, hrun, rfl⟩ := Analysis.run_cons_eq_iff.1 h
    rw [Derivation.tokens_cons] at hspelled
    simp only [List.mem_append, List.mem_cons] at hspelled
    obtain ⟨hfirst, hconverted⟩ :=
      canonical_of_statement statement.1 (fun t ht => hspelled t (.inl ht)) hstatement
    obtain ⟨hlater, hconverted'⟩ := ih (fun t ht => hspelled t (.inr (.inr ht))) hrun
    refine ⟨List.forall_mem_cons.2 ⟨hfirst, hlater⟩, ?_⟩
    show (statement.1.tree :: Derivation.statements d).mapM Tree.toExpr? = _
    simp [hconverted, hconverted']

/-- Reading inverts writing on canonical programs, whether they make sense or not. The text of a
canonical program has no syntax errors, and its tree is converted, node by node, to the program. So
canonical programs with the same text are the same. Every program that a source is analysed to is
canonical, and is what the tree of the source is converted to. -/
theorem text_inverted_on_canonical :
    (∀ program : Program, program.Canonical →
        (Parse.ofSource (Utf8.encode program.text.toList)).errors = [] ∧
          (Parse.ofSource (Utf8.encode program.text.toList)).tree.toProgram? = some program) ∧
      (∀ program other : Program, program.Canonical → other.Canonical →
        program.text = other.text → program = other) ∧
        ∀ (filename : String) (source : List UInt8) (program : Program),
          (Report.ofSource filename source).verdict.bind (·.program) = some program →
            program.Canonical ∧ (Parse.ofSource source).tree.toProgram? = some program := by
  refine ⟨fun program => ofSource_of_canonical, ?_, ?_⟩
  · intro program other hprogram hother htext
    have hconverted := (ofSource_of_canonical hprogram).2
    rw [htext, (ofSource_of_canonical hother).2] at hconverted
    exact (Option.some.inj hconverted).symm
  · intro filename source program h
    obtain ⟨v, hv, hprogram⟩ := Option.bind_eq_some_iff.1 h
    obtain ⟨d, position, s, hending, htokens, hrun, -⟩ :=
      Report.exists_derivation_of_ofSource hv hprogram
    obtain ⟨hcanonical, hconverted⟩ :=
      canonical_of_run d (Parse.spelled_of_tokens_eq htokens) hrun
    have hstatements := (Parse.ofSource_iff_derivation.2 ⟨⟨position, hending⟩, d, htokens, rfl⟩).2
    refine ⟨hcanonical, ?_⟩
    rw [Parse.tree, hstatements, Tree.toProgram?, hconverted]
    rfl

/-- A canonical program that is rejected: it subtracts a truth value, has two minus signs in a row
and assigns to a variable that is not declared. -/
theorem text_inverted_on_canonical_sample :
    let one : Binary64 := .ofRatio false 1 1
    let half : Binary64 := .ofRatio false 1 2
    let program : Program :=
      ⟨[.declaration "é" .int (.binary (.additive "-") (.number one true)
          (.parens (.binary (.additive "-") (.boolean true) (.number half false)))),
        .unary .minus (.unary .minus (.var "é")),
        .assignment "x" (.binary .disjunction (.var "_1") (.unary .not (.var "y")))]⟩
    program.Canonical ∧
      program.text = "int é = 1 - (true - 0.5);\n--é;\nx = _1 || !y;\n" ∧
        (Report.ofSource "" (Utf8.encode program.text.toList)).rejected = true ∧
          (Parse.ofSource (Utf8.encode program.text.toList)).errors = [] ∧
            (Parse.ofSource (Utf8.encode program.text.toList)).tree.toProgram? = some program := by
  intro one half program
  have hone : IsLiteral one true := by
    have hvalue : Numeral.value? "1" = some one := by decide +kernel
    have hnumeral : Numeral.IsNumeral "1".toList :=
      @Numeral.IsNumeral.layout ['1'] [] (by decide) (by simp [Numeral.Digits])
        (by simp [Numeral.Digits])
    exact isLiteral_of_value? hnumeral hvalue
  have hhalf : IsLiteral half false := by
    have hvalue : Numeral.value? "0.5" = some half := by decide +kernel
    have hnumeral : Numeral.IsNumeral "0.5".toList :=
      @Numeral.IsNumeral.layout ['0'] ['5'] (by decide) (by simp [Numeral.Digits])
        (by simp [Numeral.Digits])
    exact isLiteral_of_value? hnumeral hvalue
  have hcanonical : program.Canonical := by
    have hé : IsName "é" := @Spelled.of_all 'é' [] (by decide +kernel) (by decide)
    have hx : IsName "x" := @Spelled.of_all 'x' [] (by decide) (by decide)
    have hy : IsName "y" := @Spelled.of_all 'y' [] (by decide) (by decide)
    have hscore : IsName "_1" := @Spelled.of_all '_' ['1'] (by decide +kernel) (by decide +kernel)
    intro e he
    simp only [program, List.mem_cons, List.not_mem_nil, or_false] at he
    rcases he with rfl | rfl | rfl
    · simp [Expr.CanonicalStatement, Expr.Canonical, Expr.tightness, BinaryOp.Legal, BinaryOp.cls,
        BinaryClass.level, hé, hone, hhalf]
    · simp [Expr.CanonicalStatement, Expr.Canonical, Expr.tightness, hé]
    · simp [Expr.CanonicalStatement, Expr.Canonical, Expr.tightness, BinaryOp.Legal, BinaryOp.cls,
        BinaryClass.level, hx, hy, hscore]
  have hread := text_inverted_on_canonical.1 program hcanonical
  exact ⟨hcanonical, by decide +kernel, by decide +kernel, hread⟩

end ScalarLang
