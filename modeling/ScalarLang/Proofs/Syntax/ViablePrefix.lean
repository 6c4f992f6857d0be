import ScalarLang.Proofs.Syntax.Recovery

/-!
# Errors show at the first token that no statement allows

The tokens that the parser has read of a statement can always be completed to a statement of the
grammar and its semicolon, and the token that it refuses cannot be part of any such completion. So
the error of a segment shows as early as the grammar lets it. The module introduces:

* `Grammar.Begins`: some tokens are the beginning of a statement and its semicolon;
* `Parser.ShowsFirst`: an error shows at the first token with which some tokens are no such
  beginning;
* `Parse.Pinpoints`, `Parse.PinpointsRest`: what is reported for a segment and for what comes behind
  the last semicolon.

The main steps are `Viable.begins`, by completing everything that is open, and
`not_begins_of_refuse`, by reading the completion that would have to exist.
-/

namespace ScalarLang

/-- The tokens that an expectation stands for. -/
def Expectation.kind : Expectation → Token.Kind
  | identifier => .identifier
  | assign => .assign
  | semicolon => .semicolon
  | closeParen => .closeParen

namespace Grammar

/-- The tokens can be continued to a statement and its semicolon, or are all of it. -/
def Begins (ts : List Token) : Prop :=
  ∃ (d : Statement) (semicolon : Terminal .semicolon), ts <+: d.tokens ++ [semicolon.val]

/-- What comes first in a statement begins it. -/
theorem begins_of_prefix {ts : List Token} (d : Statement) (h : ts <+: d.tokens) : Begins ts :=
  ⟨d, ⟨⟨.semicolon, ";", none⟩, rfl⟩, h.trans (List.prefix_append _ _)⟩

/-- An operand that can stand wherever one is missing. -/
def anyOperand : Phrase .unary :=
  .primary (.var ⟨⟨.identifier, "x", none⟩, rfl⟩)

/-- An expression that can stand wherever one is missing. -/
def anyExpression : Phrase .expression :=
  @Phrase.operand .disjunction <| @Phrase.operand .conjunction <| @Phrase.operand .additive <|
    @Phrase.operand .multiplicative anyOperand

end Grammar

namespace Parser

open Grammar Parse

variable {s : Nonterminal} {stack : List Frame} {purpose : Purpose} {phase : Phase} {t : Token}
  {head ts before : List Token}

/-! ## What has been read can be completed -/

/-- Whatever is open can be closed behind a phrase that may follow. -/
theorem Open.exists_expression (h : Open s stack ts) (d : Phrase s) :
    ∃ (whole : Phrase .expression) (more : List Token),
      whole.tokens = ts ++ d.tokens ++ more := by
  -- on the hole: each rule adds the tokens that it has to the left and to the right of it
  induction h with
  | bottom => exact ⟨d, [], by simp⟩
  | parens h opening ih =>
    obtain ⟨whole, more, hwhole⟩ :=
      ih (.primary (.parens opening d ⟨⟨.closeParen, ")", none⟩, rfl⟩))
    exact ⟨whole, ⟨.closeParen, ")", none⟩ :: more, by simp [hwhole, Phrase.tokens]⟩
  | unary h op sign ih =>
    obtain ⟨whole, more, hwhole⟩ := ih (.unary op sign d)
    exact ⟨whole, more, by simp [hwhole, Phrase.tokens]⟩
  | right h left op hs ih =>
    subst hs
    obtain ⟨whole, more, hwhole⟩ := ih (.binary left op d)
    exact ⟨whole, more, by simp [hwhole, Phrase.tokens]⟩
  | operand h hs ih =>
    subst hs
    exact ih (.operand d)

/-- What introduces an expression and a part of the expression begin a statement. -/
theorem Introduced.begins (hpurpose : Introduced purpose head) {d : Phrase .expression}
    (h : ts <+: d.tokens) : Begins (head ++ ts) := by
  obtain ⟨statement, htokens, -⟩ := hpurpose.exists_statement d
  apply begins_of_prefix statement
  rw [htokens]
  exact (List.prefix_append_right_inj head).2 h

/-- What has been read of a statement begins one. -/
theorem Viable.begins (h : Viable phase ts) : Begins ts := by
  cases h with
  | start => exact begins_of_prefix (.expression anyExpression) List.nil_prefix
  | typed type =>
    let name : Terminal .identifier := ⟨⟨.identifier, "x", none⟩, rfl⟩
    exact begins_of_prefix (.declaration type name ⟨⟨.assign, "=", none⟩, rfl⟩ anyExpression)
      ⟨_, rfl⟩
  | named type name =>
    exact begins_of_prefix (.declaration type name ⟨⟨.assign, "=", none⟩, rfl⟩ anyExpression)
      ⟨_, rfl⟩
  | operand hpurpose hopen =>
    obtain ⟨whole, more, hwhole⟩ := hopen.exists_expression anyOperand
    apply hpurpose.begins (d := whole)
    rw [hwhole, List.append_assoc]
    exact List.prefix_append _ _
  | operator hpurpose hopen hsettled d =>
    obtain ⟨whole, more, hwhole⟩ := hopen.exists_expression d
    apply hpurpose.begins (d := whole)
    rw [hwhole]
    exact List.prefix_append _ _

/-! ## What is expected can follow -/

/-- Binary operators that are applied close no parenthesis. -/
theorem hasParens_closeBinary (level : Nat) (stack : List Frame) (value : Tree) :
    hasParens (closeBinary level stack value).1 = hasParens stack := by
  fun_induction closeBinary level stack value with
  | case1 value cls left op stack hlevel ih => exact ih
  | case2 | case3 => rfl

/-- A token of the expected kind begins a statement together with what has been read. -/
theorem Viable.begins_of_expected (h : Viable phase ts) {expected : Expectation}
    (hexpected : phase.expected? = some expected) (ht : t.kind = expected.kind) :
    Begins (ts ++ [t]) := by
  cases h with
  | start | operand => cases hexpected
  | typed type =>
    cases hexpected
    exact (Viable.named type ⟨t, ht⟩).begins
  | named type name =>
    cases hexpected
    exact (Introduced.viable (.declaration type name ⟨t, ht⟩)).begins
  | @operator purpose head ts stack hpurpose hopen hsettled d =>
    -- all operators are applied; then either a parenthesis is on top of the stack or nothing is
    obtain ⟨stack', ts', d', hclose, hopen', htokens⟩ :=
      hopen.closeBinary hsettled d .disjunction (by decide)
    have hparens : hasParens stack' = hasParens stack := by
      rw [← hasParens_closeBinary _ stack d.tree, hclose]
    rw [Phase.expected?, ← hparens, Option.some.injEq] at hexpected
    subst hexpected
    rw [← htokens]
    rcases hopen'.of_expression with ⟨rfl, rfl⟩ | ⟨before, below, opening, rfl, rfl, hbefore⟩
    · obtain ⟨statement, hstatement, -⟩ := hpurpose.exists_statement d'
      exact ⟨statement, ⟨t, ht⟩, by rw [hstatement, List.nil_append]⟩
    · have hviable := viable_afterOperand hpurpose hbefore (.parens opening d' ⟨t, ht⟩)
      simpa [Phrase.tokens] using hviable.begins

/-! ## What is refused cannot follow -/

/-- A token that is refused begins no statement together with what has been read. -/
theorem not_begins_of_refuse (ht : t.Significant) (hstep : phase.step t = .refuse)
    (hrun : ∀ rest, run .start (before ++ rest) = run phase rest) : ¬Begins (before ++ [t]) := by
  rintro ⟨d, semicolon, more, hmore⟩
  -- the statement would be read without an error, and at the token there is one
  have hread : run .start (before ++ t :: more) = (run .start []).cons (.ok d.tree) := by
    rw [← run_statement d semicolon [], ← hmore, List.append_assoc, List.singleton_append]
  rw [hrun, run_cons_of_refuse ht hstep] at hread
  have houtcomes := congrArg Parse.outcomes hread
  cases (List.cons.inj houtcomes).1

/-- The error says that `ts` cannot go on, without naming what could follow, or it names one thing,
and this can follow. -/
def Names (ts : List Token) (unnamed : SyntaxError.Cause)
    (named : Expectation → SyntaxError.Cause) (position : Option Position)
    (e : SyntaxError) : Prop :=
  e = .located unnamed position ∨
    ∃ expected : Expectation, e = .located (named expected) position ∧
      ∀ t : Token, t.kind = expected.kind → Begins (ts ++ [t])

/-- The error shows at the first token with which the tokens do not begin a statement. -/
def ShowsFirst (ts : List Token) (e : SyntaxError) : Prop :=
  ∃ (before after : List Token) (t : Token), ts = before ++ t :: after ∧
    Begins before ∧ ¬Begins (before ++ [t]) ∧
      Names before (.extraneous t.text) (.mismatched t.text) t.position e

/-- What a phase refuses is reported with what could follow. -/
theorem Viable.names_refusal (h : Viable phase ts) (t : Token) :
    Names ts (.extraneous t.text) (.mismatched t.text) t.position (phase.refusal t) := by
  unfold Phase.refusal
  cases hexpected : phase.expected? with
  | none => exact .inl rfl
  | some expected => exact .inr ⟨expected, rfl, fun u => h.begins_of_expected hexpected⟩

/-- The end of the input is reported with what could follow. -/
theorem Viable.names_endError (h : Viable phase ts) {position : Option Position} {e : SyntaxError}
    (he : phase.endError? position = some e) :
    Names ts .unexpectedEnd .missing position e := by
  -- where a statement may end there is no error
  have hopen : phase.endError? position
      = some (phase.expected?.elim (.located .unexpectedEnd position)
          fun expected => .located (.missing expected) position) := by
    cases h with
    | start => cases he
    | typed | named | operand | operator => rfl
  rw [hopen] at he
  cases hexpected : phase.expected? with
  | none =>
    rw [hexpected] at he
    cases he
    exact .inl rfl
  | some expected =>
    rw [hexpected] at he
    cases he
    exact .inr ⟨expected, rfl, fun u => h.begins_of_expected hexpected⟩

/-- A token that is refused is the first that no statement allows. -/
theorem Viable.showsFirst_refusal (h : Viable phase before) (ht : t.Significant)
    (hstep : phase.step t = .refuse)
    (hrun : ∀ rest, run .start (before ++ rest) = run phase rest) (after : List Token) :
    ShowsFirst (before ++ t :: after) (phase.refusal t) :=
  ⟨before, after, t, rfl, h.begins, not_begins_of_refuse ht hstep hrun, h.names_refusal t⟩

/-- Tokens that come later do not matter. -/
theorem ShowsFirst.append {e : SyntaxError} (h : ShowsFirst ts e) (more : List Token) :
    ShowsFirst (ts ++ more) e := by
  obtain ⟨before, after, t, rfl, hbegins⟩ := h
  exact ⟨before, after ++ more, t, by simp, hbegins⟩

end Parser

namespace Parse

open ScalarLang.Grammar ScalarLang.Parser

variable {us : List Token}

/-! ## Segments and the rest -/

/-- Tokens without semicolon are read as the beginning of a statement, or an error shows at the
first of them that no statement allows, and the others are skipped. -/
theorem run_start_of_plain (hus : ∀ u ∈ us, u.Significant)
    (hplain : ∀ u ∈ us, u.kind ≠ .semicolon) :
    (∃ phase, Viable phase us ∧ ∀ rest, run .start (us ++ rest) = run phase rest) ∨
      ∃ e, ShowsFirst us e ∧
        ∀ rest, run .start (us ++ rest) = (run .skipping rest).cons (.error e) := by
  refine (run_split_of_plain .start hus hplain).imp_right ?_
  rintro ⟨early, late, u, phase, rfl, hviable, hstep, hearly, hrun⟩
  have hu : u.Significant := hus u (by simp)
  exact ⟨phase.refusal u, hviable.showsFirst_refusal hu hstep hearly late, hrun⟩

/-- The outcome of a segment: the tree of the statement that it is, or else one error at the first
token that no statement allows. -/
def Pinpoints (segment : Segment) (outcome : Except SyntaxError Tree) : Prop :=
  (∃ d : Statement, d.tokens = segment.tokens ∧ outcome = .ok d.tree) ∨
    (∀ d : Statement, d.tokens ≠ segment.tokens) ∧
      ∃ e, outcome = .error e ∧ ShowsFirst segment.all e

/-- A segment has one outcome, and the parser goes on behind its semicolon. -/
theorem exists_pinpoints_run (segment : Segment)
    (hsegment : ∀ t ∈ segment.tokens, t.Significant) :
    ∃ outcome, Pinpoints segment outcome ∧
      ∀ rest, run .start (segment.all ++ rest) = (run .start rest).cons outcome := by
  have hall (rest : List Token) :
      segment.all ++ rest = segment.tokens ++ segment.semicolon.val :: rest := by
    rw [Segment.all, List.append_assoc, List.singleton_append]
  simp only [hall]
  have hkind := segment.semicolon.property
  have hsemicolon : segment.semicolon.val.Significant := Token.significant_iff.2 (by simp [hkind])
  by_cases hderives : ∃ d : Statement, d.tokens = segment.tokens
  · obtain ⟨d, hd⟩ := hderives
    refine ⟨.ok d.tree, .inl ⟨d, hd, rfl⟩, fun rest => ?_⟩
    rw [← hd, run_statement]
  have hnone : ∀ d : Statement, d.tokens ≠ segment.tokens := fun d hd => hderives ⟨d, hd⟩
  rcases run_start_of_plain hsegment segment.plain with ⟨phase, hviable, hrun⟩ | ⟨e, he, hrun⟩
  · -- everything before the semicolon begins a statement, so it is the semicolon that is refused
    cases hstep : phase.step segment.semicolon.val with
    | next phase' => exact absurd hstep (step_semicolon_ne_next hviable hkind)
    | complete tree =>
      obtain ⟨-, d, hd, -⟩ := exists_statement_of_step hviable hstep
      exact absurd hd (hnone d)
    | refuse =>
      have hfirst := hviable.showsFirst_refusal hsemicolon hstep hrun []
      refine ⟨_, .inr ⟨hnone, _, rfl, hfirst⟩, fun rest => ?_⟩
      rw [hrun, run_cons_of_refuse hsemicolon hstep, Phase.recover, if_pos hkind]
  · refine ⟨_, .inr ⟨hnone, e, rfl, he.append _⟩, fun rest => ?_⟩
    have hstep : Phase.skipping.step segment.semicolon.val = .next .start := by
      rw [Phase.step, if_pos hkind]
    rw [hrun, run_cons_of_next hsemicolon hstep]

/-- What is reported behind the last semicolon if the input ends at `position`: nothing if nothing
comes there, and otherwise one error, at the first token that no statement allows or, if there is
none, at the end of the input. -/
def PinpointsRest (rest : List Token) (position : Option Position) (late : List SyntaxError) :
    Prop :=
  (rest = [] ∧ late = []) ∨
    rest ≠ [] ∧ ∃ e, late = [e] ∧
      (ShowsFirst rest e ∨ Begins rest ∧ Names rest .unexpectedEnd .missing position e)

/-- What comes behind the last semicolon gives at most one error. -/
theorem exists_pinpointsRest_run (hus : ∀ u ∈ us, u.Significant)
    (hplain : ∀ u ∈ us, u.kind ≠ .semicolon) {tail : List Token} {position : Option Position}
    (htail : ∀ phase : Phase,
      (run phase tail).outcomes = (phase.endError? position).toList.map .error) :
    ∃ late, PinpointsRest us position late ∧
      (run .start (us ++ tail)).outcomes = late.map .error := by
  by_cases hnil : us = []
  · subst hnil
    exact ⟨[], .inl ⟨rfl, rfl⟩, htail .start⟩
  rcases run_start_of_plain hus hplain with ⟨phase, hviable, hrun⟩ | ⟨e, he, hrun⟩
  · cases hend : phase.endError? position with
    | none => exact absurd (eq_nil_of_endError?_eq_none hviable hend) hnil
    | some e =>
      have hnames := hviable.names_endError hend
      refine ⟨[e], .inr ⟨hnil, e, rfl, .inr ⟨hviable.begins, hnames⟩⟩, ?_⟩
      rw [hrun, htail, hend]
      rfl
  · refine ⟨[e], .inr ⟨hnil, e, rfl, .inl he⟩, ?_⟩
    rw [hrun]
    exact congrArg (Except.error e :: ·) (htail .skipping)

/-! ## Whole token lists -/

/-- How the end of the input is read, with or without a token for it. -/
theorem outcomes_run_ending {ending : Option Token} (h : ∀ t ∈ ending, t.kind = .endOfInput)
    (phase : Phase) :
    (run phase ending.toList).outcomes
      = (phase.endError? (ending.bind (·.position))).toList.map .error := by
  cases ending with
  | none => rfl
  | some t =>
    have ht : t.kind = .endOfInput := h t rfl
    simp [run, Token.isComment, Token.isTerminal, Phase.terminalError?, ht]

/-- Syntax errors are reported at the earliest possible token. Let no token of a list end it early,
and leave comments out. Then a segment that is a statement gives its tree. Any other segment gives
one error, at the first of its tokens, the semicolon included, with which they are not the beginning
of a statement and its semicolon; if the error names what is expected there, then any token of that
kind would have gone on with such a beginning. So it is with what comes behind the last semicolon,
where the end of the input is refused by every beginning. -/
theorem errors_pinpoint (ts : List Token) (hts : ∀ t ∈ ts, t.isTerminal = false)
    (ending : Option Token) (hending : ∀ t ∈ ending, t.kind = .endOfInput) :
    let sentence := ts.filter (!·.isComment)
    ∃ (outcomes : List (Except SyntaxError Tree)) (late : List SyntaxError),
      List.Forall₂ Pinpoints (segments sentence).1 outcomes ∧
        PinpointsRest (segments sentence).2 (ending.bind (·.position)) late ∧
          (ofTokens (ts ++ ending.toList)).errors = outcomes.filterMap error? ++ late := by
  intro sentence
  have hsentence := flatMap_segments sentence
  have hsignificant : ∀ t ∈ (segments sentence).1.flatMap Segment.all ++ (segments sentence).2,
      t.Significant := by
    rw [hsentence]
    intro t ht
    obtain ⟨hmem, hcomment⟩ := List.mem_filter.1 ht
    exact ⟨by simpa using hcomment, hts t hmem⟩
  obtain ⟨late, hlate, hrun⟩ := exists_pinpointsRest_run
    (fun t ht => hsignificant t (List.mem_append_right _ ht)) (fun t => kind_ne_of_mem_rest)
    (outcomes_run_ending hending)
  obtain ⟨outcomes, hpinpoints, houtcomes⟩ := forall₂_outcomes_run (segments sentence).1
    (fun segment hsegment => exists_pinpoints_run segment fun t ht =>
      hsignificant t (List.mem_append_left _ (List.mem_flatMap.2
        ⟨segment, hsegment, List.mem_append_left _ ht⟩)))
    ((segments sentence).2 ++ ending.toList)
  -- comments are passed over, so the list is read as its sentence
  have hfilter : (run .start (ts ++ ending.toList)).outcomes
      = (run .start (sentence ++ ending.toList)).outcomes := by
    rw [← outcomes_run_filter .start (ts ++ _), ← outcomes_run_filter .start (sentence ++ _),
      List.filter_append, List.filter_append, List.filter_filter]
    simp only [Bool.and_self]
  rw [← List.append_assoc, hsentence, hrun, ← hfilter] at houtcomes
  refine ⟨outcomes, late, hpinpoints, hlate, ?_⟩
  have hsome : late.filterMap (error? ∘ Except.error) = late := List.filterMap_some
  rw [errors_eq_filterMap, ofTokens, houtcomes, List.filterMap_append, List.filterMap_map, hsome]

/-- A declaration without a name, a statement, and an open parenthesis behind the last semicolon. -/
theorem errors_pinpoint_sample :
    let ts : List Token :=
      [⟨.typeName, "int", some ⟨1, 1⟩⟩, ⟨.assign, "=", some ⟨1, 5⟩⟩, ⟨.semicolon, ";", some ⟨1, 6⟩⟩,
        ⟨.identifier, "x", some ⟨2, 1⟩⟩, ⟨.comment, "// x", some ⟨2, 3⟩⟩,
        ⟨.semicolon, ";", some ⟨3, 1⟩⟩,
        ⟨.openParen, "(", some ⟨4, 1⟩⟩, ⟨.identifier, "y", some ⟨4, 2⟩⟩]
    let ending : Token := ⟨.endOfInput, "", some ⟨4, 3⟩⟩
    (ofTokens (ts ++ [ending])).errors
        = [⟨.mismatched "=" .identifier, ⟨1, 5⟩⟩, ⟨.missing .closeParen, ⟨4, 3⟩⟩] ∧
      ∃ (outcomes : List (Except SyntaxError Tree)) (late : List SyntaxError),
        List.Forall₂ Pinpoints (segments (ts.filter (!·.isComment))).1 outcomes ∧
          PinpointsRest (segments (ts.filter (!·.isComment))).2 (some ⟨4, 3⟩) late ∧
            (ofTokens (ts ++ [ending])).errors = outcomes.filterMap error? ++ late := by
  intro ts ending
  have hts : ∀ t ∈ ts, t.isTerminal = false := by decide
  have hending : ∀ t ∈ some ending, t.kind = .endOfInput := by simp [ending]
  exact ⟨by decide +kernel, errors_pinpoint ts hts (some ending) hending⟩

end Parse

end ScalarLang
