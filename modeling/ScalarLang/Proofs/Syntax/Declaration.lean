import ScalarLang.Proofs.Syntax.Recovery

/-!
# A declaration behind any tokens

Two words in a row are the beginning of a declaration or a syntax error. So whatever tokens come
first, a word, a name and the number that the name is given are a declaration, or the parser gives
them up before it gets to the number. Which number it is shows in the tree of the declaration only.

* `step_of_word`: what a word does to any phase.
* `exists_outcomes_declaration`: what becomes of the declaration in any phase.
-/

namespace ScalarLang.Parse

open ScalarLang.Grammar ScalarLang.Parser

variable {t type name : Token}

/-- Whatever tokens come first, what follows them is read on from some phase. -/
theorem exists_outcomes_of_nonterminal {us : List Token} (hus : ∀ u ∈ us, u.isTerminal = false)
    (phase : Phase) :
    ∃ (outcomes : List (Except SyntaxError Tree)) (phase' : Phase), ∀ rest,
      (run phase (us ++ rest)).outcomes = outcomes ++ (run phase' rest).outcomes := by
  -- each token leads to one phase and has one outcome at most
  induction us generalizing phase with
  | nil => exact ⟨[], phase, fun _ => rfl⟩
  | cons u us ih =>
    have hus' : ∀ u ∈ us, u.isTerminal = false := fun v hv => hus v (List.mem_cons_of_mem _ hv)
    by_cases hcomment : u.isComment = true
    · obtain ⟨outcomes, phase', hrun⟩ := ih hus' phase
      refine ⟨outcomes, phase', fun rest => ?_⟩
      rw [List.cons_append, run_cons_of_comment hcomment, hrun]
    have hu : u.Significant := ⟨by simpa using hcomment, hus u List.mem_cons_self⟩
    cases hstep : phase.step u with
    | next next =>
      obtain ⟨outcomes, phase', hrun⟩ := ih hus' next
      refine ⟨outcomes, phase', fun rest => ?_⟩
      rw [List.cons_append, run_cons_of_next hu hstep, hrun]
    | complete tree =>
      obtain ⟨outcomes, phase', hrun⟩ := ih hus' .start
      refine ⟨.ok tree :: outcomes, phase', fun rest => ?_⟩
      rw [List.cons_append, run_cons_of_complete hu hstep]
      exact congrArg (Except.ok tree :: ·) (hrun rest)
    | refuse =>
      obtain ⟨outcomes, phase', hrun⟩ := ih hus' (Phase.recover u)
      refine ⟨.error (phase.refusal u) :: outcomes, phase', fun rest => ?_⟩
      rw [List.cons_append, run_cons_of_refuse hu hstep]
      exact congrArg (Except.error (phase.refusal u) :: ·) (hrun rest)

/-- No word follows a complete operand. -/
theorem step_operator_of_word {purpose : Purpose} {stack : List Frame} {value : Tree}
    (ht : t.kind = .typeName ∨ t.kind = .identifier) :
    (Phase.operator purpose stack value).step t = .refuse := by
  have hclass : binaryClass? t.kind = none := by rcases ht with h | h <;> rw [h] <;> rfl
  rw [step_operator_of_end hclass rfl]
  unfold Phase.stepEnd
  rcases ht with h | h <;> split <;> simp [h]

/-- A word that is not refused is skipped, or it is the type of a declaration, or no name can follow
it. -/
theorem step_of_word (ht : t.kind = .typeName ∨ t.kind = .identifier) (phase : Phase) :
    phase.step t = .refuse ∨ ∃ phase', phase.step t = .next phase' ∧
      (phase' = .skipping ∨ (t.kind = .typeName ∧ phase' = .typed t) ∨
        ∀ name : Token, name.kind = .identifier → phase'.step name = .refuse) := by
  have hskipping : Phase.skipping.step t = .next .skipping := by
    rcases ht with h | h <;> simp [Phase.step, h]
  -- behind a name that is an operand an operator has to follow
  have hoperand (hname : t.kind = .identifier) (purpose : Purpose) (stack : List Frame) :
      ∃ phase', Phase.stepOperand purpose stack t = .next phase' ∧
        (phase' = .skipping ∨ (t.kind = .typeName ∧ phase' = .typed t) ∨
          ∀ name : Token, name.kind = .identifier → phase'.step name = .refuse) := by
    refine ⟨.afterOperand purpose stack (.leaf .var t.text t.position), ?_, .inr (.inr ?_)⟩
    · simp [Phase.stepOperand, hname, unaryOp?, leafKind?]
    · exact fun name h => step_operator_of_word (.inr h)
  cases phase with
  | start =>
    rcases ht with htype | hname
    · exact .inr ⟨.typed t, if_pos htype, .inr (.inl ⟨htype, rfl⟩)⟩
    · rw [Phase.step, if_neg (by simp [hname])]
      exact .inr (hoperand hname .statement [])
  | typed type =>
    rcases ht with htype | hname
    · exact .inl (by simp [Phase.step, htype])
    · refine .inr ⟨.named type t, if_pos hname, .inr (.inr fun name h => ?_)⟩
      simp [Phase.step, h]
  | named type name => exact .inl (by rcases ht with h | h <;> simp [Phase.step, h])
  | operand purpose stack =>
    rcases ht with htype | hname
    · exact .inl (by simp [Phase.step, Phase.stepOperand, htype, unaryOp?, leafKind?])
    · exact .inr (hoperand hname purpose stack)
  | operator purpose stack value => exact .inl (step_operator_of_word ht)
  | skipping => exact .inr ⟨.skipping, hskipping, .inl rfl⟩

/-- Behind a word and a name the statement is given up, or they are the beginning of a declaration,
whatever came before them. -/
theorem exists_outcomes_words (htype : type.kind = .typeName ∨ type.kind = .identifier)
    (hname : name.kind = .identifier) (phase : Phase) :
    (∃ outcomes, ∀ rest, (run phase (type :: name :: rest)).outcomes
        = outcomes ++ (run .skipping rest).outcomes) ∨
      type.kind = .typeName ∧ ∀ rest, run phase (type :: name :: rest)
        = run (.named type name) rest := by
  have hsignificant {t : Token} (ht : t.kind = .typeName ∨ t.kind = .identifier) :
      t.Significant ∧ t.kind ≠ .semicolon := by
    rcases ht with h | h <;> exact ⟨Token.significant_iff.2 (by simp [h]), by simp [h]⟩
  -- neither word is a semicolon, so once a statement is given up both are skipped
  obtain ⟨htype', hplain⟩ := hsignificant htype
  obtain ⟨hname', hplain'⟩ := hsignificant (.inr hname)
  have hskip (rest : List Token) : run .skipping (name :: rest) = run .skipping rest :=
    run_cons_of_next hname' (by simp [Phase.step, hname]) rest
  rcases step_of_word htype phase with
    hstep | ⟨phase', hstep, rfl | ⟨htypeName, rfl⟩ | hrefuse⟩
  · refine .inl ⟨[.error (phase.refusal type)], fun rest => ?_⟩
    rw [run_cons_of_refuse htype' hstep, Phase.recover, if_neg hplain, hskip]
    rfl
  · refine .inl ⟨[], fun rest => ?_⟩
    rw [run_cons_of_next htype' hstep, hskip, List.nil_append]
  · refine .inr ⟨htypeName, fun rest => ?_⟩
    have hnamed : (Phase.typed type).step name = .next (.named type name) := if_pos hname
    rw [run_cons_of_next htype' hstep, run_cons_of_next hname' hnamed]
  · refine .inl ⟨[.error (phase'.refusal name)], fun rest => ?_⟩
    rw [run_cons_of_next htype' hstep, run_cons_of_refuse hname' (hrefuse name hname),
      Phase.recover, if_neg hplain']
    rfl

/-- The value of a declaration that is one token. -/
theorem run_named {type name assign value semicolon : Token} {kind : NodeKind}
    (hassign : assign.kind = .assign) (hvalue : leafKind? value.kind = some kind)
    (hsemicolon : semicolon.kind = .semicolon) (rest : List Token) :
    run (.named type name) (assign :: value :: semicolon :: rest)
      = (run .start rest).cons (.ok ((Purpose.declaration type name).complete
          (leaf kind value))) := by
  have hstep : (Phase.named type name).step assign = .next (.operand (.declaration type name) []) :=
    if_pos hassign
  rw [run_cons_of_next (Token.significant_iff.2 (by simp [hassign])) hstep, run_leaf hvalue]
  exact run_semicolon hsemicolon rfl rest

/-- A type and a name at the start of a statement. -/
theorem run_start_named (htype : type.kind = .typeName) (hname : name.kind = .identifier)
    (rest : List Token) : run .start (type :: name :: rest) = run (.named type name) rest := by
  have hstart : Phase.start.step type = .next (.typed type) := if_pos htype
  have hnamed : (Phase.typed type).step name = .next (.named type name) := if_pos hname
  rw [run_cons_of_next (Token.significant_iff.2 (by simp [htype])) hstart,
    run_cons_of_next (Token.significant_iff.2 (by simp [hname])) hnamed]

/-- In any phase, a word, a name and a number that the name is given are the declaration of that
number, or their outcomes do not depend on the number. -/
theorem exists_outcomes_declaration {assign semicolon : Token}
    (htype : type.kind = .typeName ∨ type.kind = .identifier) (hname : name.kind = .identifier)
    (hassign : assign.kind = .assign) (hsemicolon : semicolon.kind = .semicolon) (phase : Phase) :
    (∃ outcomes, ∀ value : Token, value.kind = .number → ∀ rest,
        (run phase (type :: name :: assign :: value :: semicolon :: rest)).outcomes
          = outcomes ++ (run .start rest).outcomes) ∨
      type.kind = .typeName ∧ ∀ value : Token, value.kind = .number → ∀ rest,
        (run phase (type :: name :: assign :: value :: semicolon :: rest)).outcomes
          = .ok ((Purpose.declaration type name).complete (leaf .number value))
              :: (run .start rest).outcomes := by
  rcases exists_outcomes_words htype hname phase with ⟨outcomes, hwords⟩ | ⟨hkind, hwords⟩
  · -- what is given up is skipped up to the semicolon, and the number with it
    refine .inl ⟨outcomes, fun value hvalue rest => ?_⟩
    have hplain : ∀ u ∈ [assign, value], u.Significant ∧ u.kind ≠ .semicolon := by
      simp [Token.significant_iff, hassign, hvalue]
    have hskip := run_skipping (fun u hu => (hplain u hu).1) (fun u hu => (hplain u hu).2)
      (semicolon :: rest)
    have hstep : Phase.skipping.step semicolon = .next .start := by
      rw [Phase.step, if_pos hsemicolon]
    rw [run_cons_of_next (Token.significant_iff.2 (by simp [hsemicolon])) hstep] at hskip
    exact (hwords _).trans (congrArg (outcomes ++ ·.outcomes) hskip)
  · refine .inr ⟨hkind, fun value hvalue rest => ?_⟩
    rw [hwords, run_named hassign (by rw [hvalue]; rfl) hsemicolon]
    rfl

end ScalarLang.Parse
