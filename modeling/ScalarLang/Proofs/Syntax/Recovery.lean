import Mathlib.Data.List.TakeWhile
import ScalarLang.Proofs.Syntax.Parsing

/-!
# Recovery from syntax errors

Semicolons cut a token list into segments, each with the semicolon that ends it, and a rest behind
the last one. No rule of the grammar has a semicolon inside a statement, and so the parser is at the
start of a statement behind each semicolon, whatever came before it. Each segment then has one
outcome of its own: the tree of the statement that it is, or one error at a token of it.

* `segments`: the segments of a token list and the rest.
* `run_split_of_plain`: tokens without semicolon are read on, or one of them is refused and the
  others are skipped.
* `exists_outcomes_run`: the outcomes of segments.
* `ofTokens_segments`: the outcomes of any token list.
-/

namespace ScalarLang

namespace Grammar

/-! ## Segments -/

/-- Tokens without semicolon, and the semicolon that ends them. -/
structure Segment where
  tokens : List Token
  semicolon : Terminal .semicolon
  plain : ∀ t ∈ tokens, t.kind ≠ .semicolon

namespace Segment

/-- The segment of a semicolon alone. -/
def empty (semicolon : Terminal .semicolon) : Segment :=
  ⟨[], semicolon, by simp⟩

/-- Puts a token in front of a segment. -/
def cons (t : Token) (ht : t.kind ≠ .semicolon) (segment : Segment) : Segment :=
  ⟨t :: segment.tokens, segment.semicolon, by simpa [ht] using segment.plain⟩

/-- All tokens of a segment, the semicolon included. -/
def all (segment : Segment) : List Token :=
  segment.tokens ++ [segment.semicolon.val]

end Segment

/-- The segments of a token list, and the tokens behind its last semicolon. -/
def segments : List Token → List Segment × List Token
  | [] => ([], [])
  | t :: ts =>
    if ht : t.kind = .semicolon then (.empty ⟨t, ht⟩ :: (segments ts).1, (segments ts).2)
    else
      match segments ts with
      | ([], rest) => ([], t :: rest)
      | (segment :: others, rest) => (segment.cons t ht :: others, rest)

/-- Segments and rest are the whole list. -/
theorem flatMap_segments (ts : List Token) :
    (segments ts).1.flatMap Segment.all ++ (segments ts).2 = ts := by
  induction ts with
  | nil => rfl
  | cons t ts ih =>
    rw [segments]
    split_ifs with ht
    · exact congrArg (t :: ·) ih
    · rcases hsegments : segments ts with ⟨_ | ⟨segment, others⟩, rest⟩
      all_goals
        rw [hsegments] at ih
        exact congrArg (t :: ·) ih

/-- There is no semicolon in the rest. -/
theorem kind_ne_of_mem_rest {ts : List Token} {t : Token} (h : t ∈ (segments ts).2) :
    t.kind ≠ .semicolon := by
  induction ts with
  | nil => cases h
  | cons u us ih =>
    rw [segments] at h
    split_ifs at h with hu
    · exact ih h
    · rcases hsegments : segments us with ⟨_ | ⟨segment, others⟩, rest⟩ <;>
        rw [hsegments] at h ih
      · rcases List.mem_cons.1 h with rfl | h
        · exact hu
        · exact ih h
      · exact ih h

end Grammar

namespace Parser

open Grammar

/-! ## Tokens without semicolon -/

/-- The error shows at one of the tokens, and is not a lexical one. -/
def RefusedIn (ts : List Token) (e : SyntaxError) : Prop :=
  (∃ t ∈ ts, e.position = t.position.getD ⟨0, 0⟩) ∧ ∀ message, e.cause ≠ .lexical message

/-- A token that is refused is refused where it stands. -/
theorem refusedIn_refusal {ts : List Token} {t : Token} (ht : t ∈ ts) (phase : Phase) :
    RefusedIn ts (phase.refusal t) := by
  unfold Phase.refusal
  split
  · exact ⟨⟨t, ht, rfl⟩, fun _ => SyntaxError.Cause.noConfusion⟩
  · exact ⟨⟨t, ht, rfl⟩, fun _ => SyntaxError.Cause.noConfusion⟩

/-- An error that shows at one of some tokens shows at one of more tokens. -/
theorem RefusedIn.mono {ts us : List Token} {e : SyntaxError} (h : RefusedIn ts e)
    (hsub : ts ⊆ us) : RefusedIn us e := by
  obtain ⟨⟨t, ht, hposition⟩, hcause⟩ := h
  exact ⟨⟨t, hsub ht, hposition⟩, hcause⟩

/-- No semicolon is an operand. -/
theorem stepOperand_semicolon {purpose : Purpose} {stack : List Frame} {t : Token}
    (ht : t.kind = .semicolon) : Phase.stepOperand purpose stack t = .refuse := by
  simp [Phase.stepOperand, ht, unaryOp?, leafKind?]

/-- No statement goes on behind a semicolon. -/
theorem step_semicolon_ne_next {phase phase' : Phase} {ts : List Token} {t : Token}
    (hviable : Viable phase ts) (ht : t.kind = .semicolon) : phase.step t ≠ .next phase' := by
  intro h
  cases hviable with
  | start | typed | named => simp [Phase.step, ht, stepOperand_semicolon ht] at h
  | operand => simp [Phase.step, stepOperand_semicolon ht] at h
  | operator =>
    rw [Parse.step_operator_of_end (by rw [ht]; rfl) rfl] at h
    -- only a parenthesis or an assignment would go on
    rcases stepEnd_eq_next h with ⟨_, _, _, hkind, _⟩ | ⟨_, hkind, _⟩
    · exact absurd (ht.symm.trans hkind) (by decide)
    · exact absurd (ht.symm.trans hkind) (by decide)

end Parser

namespace Parse

open ScalarLang.Grammar ScalarLang.Parser

variable {phase : Phase} {before us rest : List Token} {t : Token}

/-- Tokens without semicolon are skipped. -/
theorem run_skipping (hus : ∀ u ∈ us, u.Significant) (hplain : ∀ u ∈ us, u.kind ≠ .semicolon)
    (rest : List Token) : run .skipping (us ++ rest) = run .skipping rest := by
  induction us with
  | nil => rfl
  | cons u us ih =>
    have hstep : Phase.skipping.step u = .next .skipping := by
      rw [Phase.step, if_neg (hplain u List.mem_cons_self)]
    rw [List.cons_append, run_cons_of_next (hus u List.mem_cons_self) hstep]
    exact ih (fun u hu => hus u (List.mem_cons_of_mem _ hu))
      fun u hu => hplain u (List.mem_cons_of_mem _ hu)

/-- Tokens without semicolon are read as a part of the statement, or one of them is refused by the
phase that those before it lead to, and the others are skipped. -/
theorem run_split_of_plain (hviable : Viable phase before) (hus : ∀ u ∈ us, u.Significant)
    (hplain : ∀ u ∈ us, u.kind ≠ .semicolon) :
    (∃ phase', Viable phase' (before ++ us) ∧ ∀ rest, run phase (us ++ rest) = run phase' rest) ∨
      ∃ (early late : List Token) (u : Token) (phase' : Phase), us = early ++ u :: late ∧
        Viable phase' (before ++ early) ∧ phase'.step u = .refuse ∧
          (∀ rest, run phase (early ++ rest) = run phase' rest) ∧
            ∀ rest, run phase (us ++ rest)
              = (run .skipping rest).cons (.error (phase'.refusal u)) := by
  induction us generalizing phase before with
  | nil => exact .inl ⟨phase, by rwa [List.append_nil], fun _ => rfl⟩
  | cons u us ih =>
    have hu := hus u List.mem_cons_self
    have hus' : ∀ u ∈ us, u.Significant := fun u hmem => hus u (List.mem_cons_of_mem _ hmem)
    have hplain' : ∀ u ∈ us, u.kind ≠ .semicolon := fun u hmem =>
      hplain u (List.mem_cons_of_mem _ hmem)
    cases hstep : phase.step u with
    | next phase' =>
      have hrun (us rest : List Token) : run phase (u :: us ++ rest) = run phase' (us ++ rest) :=
        run_cons_of_next hu hstep _
      have hassoc (us : List Token) : before ++ u :: us = before ++ [u] ++ us := by
        rw [List.append_assoc, List.singleton_append]
      rcases ih (viable_step hviable hstep) hus' hplain' with
        ⟨phase'', hviable', hrest⟩ |
          ⟨early, late, v, phase'', rfl, hviable', hrefuse, hearly, hrest⟩
      · exact .inl ⟨phase'', hassoc us ▸ hviable', fun rest => (hrun us rest).trans (hrest rest)⟩
      · exact .inr ⟨u :: early, late, v, phase'', rfl, hassoc early ▸ hviable', hrefuse,
          fun rest => (hrun early rest).trans (hearly rest),
          fun rest => (hrun _ rest).trans (hrest rest)⟩
    | complete tree =>
      -- a statement is completed by a semicolon only
      have hkind := (exists_statement_of_step hviable hstep).1
      exact absurd hkind (hplain u List.mem_cons_self)
    | refuse =>
      refine .inr ⟨[], us, u, phase, rfl, by rwa [List.append_nil], hstep, fun _ => rfl,
        fun rest => ?_⟩
      rw [List.cons_append, run_cons_of_refuse hu hstep, Phase.recover,
        if_neg (hplain u List.mem_cons_self), run_skipping hus' hplain']

/-- Tokens without semicolon are read as a part of the statement, or one of them is refused and the
others are skipped. -/
theorem run_of_plain (hviable : Viable phase before) (hus : ∀ u ∈ us, u.Significant)
    (hplain : ∀ u ∈ us, u.kind ≠ .semicolon) :
    (∃ phase', Viable phase' (before ++ us) ∧ ∀ rest, run phase (us ++ rest) = run phase' rest) ∨
      ∃ e, RefusedIn us e ∧
        ∀ rest, run phase (us ++ rest) = (run .skipping rest).cons (.error e) := by
  refine (run_split_of_plain hviable hus hplain).imp_right ?_
  rintro ⟨early, late, u, phase', rfl, -, -, -, hrun⟩
  exact ⟨phase'.refusal u, refusedIn_refusal (by simp) phase', hrun⟩

/-! ## Segments and the rest -/

/-- The outcome of a segment: the tree of the statement that it is, or one error at a token of it if
it is none. -/
def Settles (segment : Segment) (outcome : Except SyntaxError Tree) : Prop :=
  (∀ d : Statement, d.tokens = segment.tokens → outcome = .ok d.tree) ∧
    ((∀ d : Statement, d.tokens ≠ segment.tokens) →
      ∃ e, outcome = .error e ∧ RefusedIn segment.all e)

/-- A segment has one outcome, and the parser goes on behind its semicolon. -/
theorem exists_outcome_run (segment : Segment) (hsegment : ∀ t ∈ segment.tokens, t.Significant) :
    ∃ outcome, Settles segment outcome ∧
      ∀ rest, run .start (segment.all ++ rest) = (run .start rest).cons outcome := by
  have hall (rest : List Token) :
      segment.all ++ rest = segment.tokens ++ segment.semicolon.val :: rest := by
    rw [Segment.all, List.append_assoc, List.singleton_append]
  by_cases hderives : ∃ d : Statement, d.tokens = segment.tokens
  · obtain ⟨d, hd⟩ := hderives
    have hrun (d : Statement) (hd : d.tokens = segment.tokens) (rest : List Token) :
        run .start (segment.all ++ rest) = (run .start rest).cons (.ok d.tree) := by
      rw [hall, ← hd, run_statement]
    refine ⟨.ok d.tree, ⟨fun d' hd' => ?_, fun hnone => absurd hd (hnone d)⟩, hrun d hd⟩
    -- two derivations of the segment are both what the parser makes of it
    have houtcomes := congrArg Parse.outcomes ((hrun d hd []).symm.trans (hrun d' hd' []))
    exact (List.cons.inj houtcomes).1
  · have hnone : ∀ d : Statement, d.tokens ≠ segment.tokens := fun d hd => hderives ⟨d, hd⟩
    suffices h : ∃ e, RefusedIn segment.all e ∧
        ∀ rest, run .start (segment.all ++ rest) = (run .start rest).cons (.error e) by
      obtain ⟨e, he, hrun⟩ := h
      exact ⟨.error e, ⟨fun d hd => absurd hd (hnone d), fun _ => ⟨e, rfl, he⟩⟩, hrun⟩
    have hkind := segment.semicolon.property
    have hsemicolon : segment.semicolon.val.Significant := Token.significant_iff.2 (by simp [hkind])
    simp only [hall]
    rcases run_of_plain .start hsegment segment.plain with
      ⟨phase, hviable, hrun⟩ | ⟨e, he, hrun⟩
    · cases hstep : phase.step segment.semicolon.val with
      | next phase' => exact absurd hstep (step_semicolon_ne_next hviable hkind)
      | complete tree =>
        obtain ⟨-, d, hd, -⟩ := exists_statement_of_step hviable hstep
        exact absurd hd (hnone d)
      | refuse =>
        refine ⟨_, refusedIn_refusal (t := segment.semicolon.val) (by simp [Segment.all]) phase,
          fun rest => ?_⟩
        rw [hrun, run_cons_of_refuse hsemicolon hstep, Phase.recover, if_pos hkind]
    · refine ⟨e, he.mono (List.subset_append_left _ _), fun rest => ?_⟩
      have hstep : Phase.skipping.step segment.semicolon.val = .next .start := by
        rw [Phase.step, if_pos hkind]
      rw [hrun, run_cons_of_next hsemicolon hstep]

/-- If each segment has an outcome and the parser goes on behind it, then so it is with all of them
together. -/
theorem forall₂_outcomes_run {R : Segment → Except SyntaxError Tree → Prop} (segs : List Segment)
    (h : ∀ segment ∈ segs, ∃ outcome, R segment outcome ∧
      ∀ rest, run .start (segment.all ++ rest) = (run .start rest).cons outcome)
    (rest : List Token) :
    ∃ outcomes, List.Forall₂ R segs outcomes ∧
      (run .start (segs.flatMap Segment.all ++ rest)).outcomes
        = outcomes ++ (run .start rest).outcomes := by
  induction segs with
  | nil => exact ⟨[], .nil, rfl⟩
  | cons segment segs ih =>
    obtain ⟨outcome, hsettles, hrun⟩ := h segment List.mem_cons_self
    obtain ⟨outcomes, houtcomes, hrest⟩ :=
      ih fun other hmem => h other (List.mem_cons_of_mem _ hmem)
    refine ⟨outcome :: outcomes, .cons hsettles houtcomes, ?_⟩
    rw [List.flatMap_cons, List.append_assoc, hrun]
    exact congrArg (outcome :: ·) hrest

/-- Segments have one outcome each, and the parser goes on behind the last of them. -/
theorem exists_outcomes_run (segs : List Segment)
    (hsegs : ∀ segment ∈ segs, ∀ t ∈ segment.tokens, t.Significant) (rest : List Token) :
    ∃ outcomes, List.Forall₂ Settles segs outcomes ∧
      (run .start (segs.flatMap Segment.all ++ rest)).outcomes
        = outcomes ++ (run .start rest).outcomes :=
  forall₂_outcomes_run segs
    (fun segment hmem => exists_outcome_run segment (hsegs segment hmem)) rest

/-- A rest that is not empty is one error at the end of the input. -/
theorem exists_error_of_ends (hus : ∀ u ∈ us, u.Significant)
    (hplain : ∀ u ∈ us, u.kind ≠ .semicolon) (hne : us ≠ []) {tail : List Token}
    (htail : Ends tail) : ∃ e, (run .start (us ++ tail)).outcomes = [.error e] := by
  obtain ⟨position, hends⟩ := htail
  rcases run_of_plain .start hus hplain with ⟨phase, hviable, hrun⟩ | ⟨e, he, hrun⟩
  · -- what has been read of the statement lacks its semicolon at least
    cases hend : phase.endError? position with
    | none => exact absurd (eq_nil_of_endError?_eq_none hviable hend) hne
    | some e => exact ⟨e, by rw [hrun, hends, hend]; rfl⟩
  · refine ⟨e, ?_⟩
    rw [hrun]
    exact congrArg (Except.error e :: ·) (hends .skipping)

/-- A lexical error is reported last, behind at most one error in the rest. -/
theorem exists_errors_of_error (hus : ∀ u ∈ us, u.Significant)
    (hplain : ∀ u ∈ us, u.kind ≠ .semicolon) (ht : t.kind = .error) (tail : List Token) :
    ∃ early : List SyntaxError, early.length ≤ 1 ∧ (∀ e ∈ early, RefusedIn us e) ∧
      (run .start (us ++ t :: tail)).outcomes
        = (early ++ [SyntaxError.located (.lexical t.text) t.position]).map .error := by
  have hlast (phase : Phase) : (run phase (t :: tail)).outcomes
      = [.error (.located (.lexical t.text) t.position)] := by
    simp [run, Token.isComment, Token.isTerminal, Phase.terminalError?, ht]
  rcases run_of_plain .start hus hplain with ⟨phase, -, hrun⟩ | ⟨e, he, hrun⟩
  · exact ⟨[], by simp, by simp, by rw [hrun, hlast]; rfl⟩
  · refine ⟨[e], by simp, by simpa using he, ?_⟩
    rw [hrun]
    exact congrArg (Except.error e :: ·) (hlast .skipping)

/-! ## Whole token lists -/

/-- The tokens before the one that ends a list, comments left out. -/
def body (ts : List Token) : List Token :=
  (ts.takeWhile (!·.isTerminal)).filter (!·.isComment)

/-- The error of an outcome. -/
def error? : Except SyntaxError Tree → Option SyntaxError
  | .ok _ => none
  | .error e => some e

/-- The errors are those of the outcomes. -/
theorem errors_eq_filterMap (p : Parse) : p.errors = p.outcomes.filterMap error? := by
  refine List.filterMap_congr fun outcome _ => ?_
  cases outcome <;> rfl

/-- The statements are those of the outcomes. -/
theorem statements_eq_filterMap (p : Parse) :
    p.statements = p.outcomes.filterMap Except.toOption := by
  refine List.filterMap_congr fun outcome _ => ?_
  cases outcome <;> rfl

/-- The tokens of the body have a part in the syntax. -/
theorem significant_of_mem_body {ts : List Token} (h : t ∈ body ts) : t.Significant := by
  obtain ⟨hmem, hcomment⟩ := List.mem_filter.1 h
  exact ⟨by simpa using hcomment, by simpa using List.mem_takeWhile_imp hmem⟩

/-- A list is read as its body up to the token that ends it. -/
theorem outcomes_run_body (ts : List Token) :
    (run .start ts).outcomes = (run .start (body ts ++ ts.dropWhile (!·.isTerminal))).outcomes := by
  rw [← outcomes_run_filter .start (body ts ++ _), List.filter_append, body, List.filter_filter]
  simp only [Bool.and_self]
  rw [← List.filter_append, List.takeWhile_append_dropWhile, outcomes_run_filter]

/-- What comes behind the last semicolon, by the token that ends the list. At the end of the input
there is one error unless nothing comes. A lexical error is reported as the last one, behind at most
one error in what comes before it. -/
def Closes (ending : Option Token) (rest : List Token) (late : List SyntaxError) : Prop :=
  ((∀ t, ending = some t → t.kind = .endOfInput) →
      (rest = [] → late = []) ∧ (rest ≠ [] → ∃ e, late = [e])) ∧
    ∀ t, ending = some t → t.kind = .error →
      ∃ early : List SyntaxError, early.length ≤ 1 ∧ (∀ e ∈ early, RefusedIn rest e) ∧
        late = early ++ [SyntaxError.located (.lexical t.text) t.position]

/-- What is reported behind the last semicolon if the input ends there. -/
theorem exists_closes_of_ends (hrest : ∀ t ∈ rest, t.Significant)
    (hplain : ∀ t ∈ rest, t.kind ≠ .semicolon) {ending : Option Token}
    (hending : ∀ t, ending = some t → t.kind ≠ .error) {tail : List Token} (htail : Ends tail) :
    ∃ late : List SyntaxError, Closes ending rest late ∧
      (run .start (rest ++ tail)).outcomes = late.map .error := by
  by_cases hnil : rest = []
  · subst hnil
    obtain ⟨position, houtcomes⟩ := htail
    refine ⟨[], ⟨fun _ => ⟨fun _ => rfl, fun hne => absurd rfl hne⟩, ?_⟩, houtcomes .start⟩
    exact fun t ht herror => absurd herror (hending t ht)
  · obtain ⟨e, he⟩ := exists_error_of_ends hrest hplain hnil htail
    refine ⟨[e], ⟨fun _ => ⟨fun h => absurd h hnil, fun _ => ⟨e, rfl⟩⟩, ?_⟩, he⟩
    exact fun t ht herror => absurd herror (hending t ht)

/-- What is reported behind the last semicolon. -/
theorem exists_closes (hrest : ∀ t ∈ rest, t.Significant)
    (hplain : ∀ t ∈ rest, t.kind ≠ .semicolon) {tail : List Token}
    (hterminal : ∀ t, tail.head? = some t → t.isTerminal = true) :
    ∃ late : List SyntaxError, Closes tail.head? rest late ∧
      (run .start (rest ++ tail)).outcomes = late.map .error := by
  cases tail with
  | nil => exact exists_closes_of_ends hrest hplain (by simp) ends_nil
  | cons t tail =>
    have ht := hterminal t rfl
    by_cases herror : t.kind = .error
    · obtain ⟨early, hlength, hearly, houtcomes⟩ :=
        exists_errors_of_error hrest hplain herror tail
      refine ⟨_, ⟨fun hend => ?_, ?_⟩, houtcomes⟩
      · exact absurd (herror.symm.trans (hend t rfl)) (by decide)
      · rintro _ ⟨⟩ -
        exact ⟨early, hlength, hearly, rfl⟩
    · have hend : t.kind = .endOfInput := by simpa [Token.isTerminal, herror] using ht
      refine exists_closes_of_ends hrest hplain ?_ (ends_endOfInput hend tail)
      rintro _ ⟨⟩
      exact herror

/-- Recovery is exact: each segment of a token list gives the tree of the statement that it is or
one error at a token of it, in the order of the segments, and behind the last semicolon nothing is
reported but the lack of one or a lexical error. -/
theorem ofTokens_segments (ts : List Token) :
    ∃ (outcomes : List (Except SyntaxError Tree)) (late : List SyntaxError),
      List.Forall₂ Settles (segments (body ts)).1 outcomes ∧
        Closes (ts.find? (·.isTerminal)) (segments (body ts)).2 late ∧
          (ofTokens ts).tree
              = .node .program "" (some Position.start) (outcomes.filterMap Except.toOption) ∧
            (ofTokens ts).errors = outcomes.filterMap error? ++ late := by
  have hbody := flatMap_segments (body ts)
  have hsignificant : ∀ t ∈ (segments (body ts)).1.flatMap Segment.all ++ (segments (body ts)).2,
      t.Significant := by
    rw [hbody]
    exact fun t => significant_of_mem_body
  have hsegs : ∀ segment ∈ (segments (body ts)).1, ∀ t ∈ segment.tokens, t.Significant := by
    intro segment hsegment t ht
    refine hsignificant t (List.mem_append_left _ (List.mem_flatMap.2 ⟨segment, hsegment, ?_⟩))
    exact List.mem_append_left _ ht
  have hfind : ts.find? (·.isTerminal) = (ts.dropWhile (!·.isTerminal)).head? :=
    ts.find?_eq_head?_dropWhile_not _
  have hterminal : ∀ t, (ts.dropWhile (!·.isTerminal)).head? = some t → t.isTerminal = true :=
    fun t ht => List.find?_some (hfind.trans ht)
  obtain ⟨late, hlate, hrun⟩ := exists_closes
    (fun t ht => hsignificant t (List.mem_append_right _ ht)) (fun t => kind_ne_of_mem_rest)
    hterminal
  obtain ⟨outcomes, hsettles, houtcomes⟩ := exists_outcomes_run _ hsegs
    ((segments (body ts)).2 ++ ts.dropWhile (!·.isTerminal))
  rw [← List.append_assoc, hbody, ← outcomes_run_body, hrun] at houtcomes
  refine ⟨outcomes, late, hsettles, hfind ▸ hlate, ?_, ?_⟩
  · rw [tree, statements_eq_filterMap, ofTokens, houtcomes, List.filterMap_append,
      List.filterMap_map]
    have hnone : late.filterMap (Except.toOption ∘ Except.error (α := Tree)) = [] :=
      List.filterMap_eq_nil_iff.2 fun _ _ => rfl
    rw [hnone, List.append_nil]
  · rw [errors_eq_filterMap, ofTokens, houtcomes, List.filterMap_append, List.filterMap_map]
    have hsome : late.filterMap (error? ∘ Except.error) = late := List.filterMap_some
    rw [hsome]

end Parse

end ScalarLang
