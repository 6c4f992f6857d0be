import ScalarLang.Proofs.Source.Sentence
import ScalarLang.Proofs.Syntax.Relocation
import ScalarLang.Proofs.Token.Separation

/-!
# Sources one below the other

If a source has no syntax errors, another source may be written below it, on a line of its own, and
is parsed there as it is by itself, only further down. This holds of bytes that encode nothing too:
whatever is open where the first source ends (an encoding, a number, a name, a comment), the line
feed closes it as the end of the input did. The module introduces:

* `Position.down lines`: a position that many lines further down;
* `below lines`: what becomes of positions if a source is moved so.

* `Lexing.stream_append_lineFeed`: the tokens of the two sources.
* `Parse.ofSource_append_lineFeed`: their statements and errors.
-/

namespace ScalarLang

/-- The position `lines` lines further down. -/
def Position.down (lines : Nat) (p : Position) : Position :=
  ⟨p.line + lines, p.column⟩

/-- Counting on goes with moving down. -/
theorem Position.advance_down (lines : Nat) (p : Position) (c : Char) :
    (p.down lines).advance c = (p.advance c).down lines := by
  unfold advance
  split_ifs
  · simp only [down, Position.mk.injEq, and_true]
    omega
  · rfl

/-- Moves every position `lines` lines down. -/
def below (lines : Nat) (p : Position) : Option Position :=
  some (p.down lines)

/-! ## Tokens -/

namespace Lexing

/-- A source that is lexed to its end is lexed in the same way if it is followed by a line feed, and
what is below is lexed from there. -/
theorem scan_append_lineFeed {skip : Nat} {p q : Position} {cs : List Char}
    (hskip : skip ≤ cs.length) (hending : (scan skip p cs).ending = .endOfInput q)
    (rest : List Char) :
    scan skip p (cs ++ '\n' :: rest)
      = (scan 0 (p.after (cs ++ ['\n'])) rest).prepend (scan skip p cs).tokens := by
  fun_induction scan skip p cs with
  | case1 skip p =>
    -- no lexeme reaches over the line feed, which is stepped over as a blank
    obtain rfl : skip = 0 := Nat.le_zero.1 hskip
    rfl
  | case2 p skip c cs ih => exact ih (by simpa using hskip) hending
  | case3 p c cs hblank ih =>
    rw [List.cons_append, scan, if_pos hblank]
    exact ih (Nat.zero_le _) hending
  | case4 p c cs hblank l hread ih =>
    have hlength : l.tail.length ≤ cs.length := (Lexeme.prefix_read hread).length_le
    -- the line feed ends a comment too
    rw [List.cons_append, scan, if_neg hblank, Lexeme.read_append_separator (.inr rfl) (by simp),
      hread]
    simp only [ih hlength hending]
    rfl
  | case5 => cases hending

/-- Lexing goes with moving down. -/
theorem stream_scan_down (lines skip : Nat) (p : Position) (cs : List Char) :
    (scan skip (p.down lines) cs).stream
      = (scan skip p cs).stream.map (Token.relocate (below lines)) := by
  fun_induction scan skip p cs with
  | case1 skip p =>
    rw [scan]
    rfl
  | case2 p skip c cs ih => rw [scan, Position.advance_down, ih]
  | case3 p c cs hblank ih => rw [scan, if_pos hblank, Position.advance_down, ih]
  | case4 p c cs hblank l hread ih =>
    rw [scan, if_neg hblank, hread, Position.advance_down]
    exact congrArg (_ :: ·) ih
  | case5 p c cs hblank e hread =>
    rw [scan, if_neg hblank, hread]
    rfl

/-- The tokens of a source that is lexed to its end and of another one below it. -/
theorem stream_append_lineFeed {cs : List Char} {q : Position}
    (hending : (ofChars cs).ending = .endOfInput q) (rest : List Char) :
    (ofChars (cs ++ '\n' :: rest)).stream
      = (ofChars cs).tokens ++
        (ofChars rest).stream.map (Token.relocate (below (1 + cs.count '\n'))) := by
  have hstart : Position.start.after (cs ++ ['\n'])
      = Position.start.down (1 + cs.count '\n') := by
    have hline : (cs ++ ['\n']).count '\n' = 1 + cs.count '\n' := by simp [Nat.add_comm]
    have hcolumn : ((cs ++ ['\n']).reverse.takeWhile (· != '\n')).length = 0 := by simp
    rw [Position.after_start, Position.behind, hline, hcolumn]
    rfl
  rw [ofChars, scan_append_lineFeed (Nat.zero_le _) hending, hstart, ofChars, ofChars,
    ← stream_scan_down]
  simp [stream, prepend]

end Lexing

/-! ## Statements and errors -/

namespace Parse

open ScalarLang.Grammar ScalarLang.Parser Utf8

/-- A sentence is read as its statements, comments or not, and what follows it as by itself. -/
theorem outcomes_run_sentence {d : Derivation} {ts : List Token}
    (htokens : d.tokens = ts.filter (!·.isComment)) (us : List Token) :
    (run .start (ts ++ us)).outcomes
      = d.statements.map .ok ++ (run .start us).outcomes := by
  rw [← outcomes_run_filter, List.filter_append, ← htokens, outcomes_run_append,
    outcomes_run_filter]

/-- What is read behind statements without errors adds to them. -/
theorem parts_of_outcomes {p rest : Parse} {trees : List Tree}
    (h : p.outcomes = trees.map .ok ++ rest.outcomes) :
    p.statements = trees ++ rest.statements ∧ p.errors = rest.errors := by
  rw [statements, errors, h, List.filterMap_append, List.filterMap_append, List.filterMap_map,
    List.filterMap_map]
  have hnone : trees.filterMap (fun _ => none (α := SyntaxError)) = [] :=
    List.filterMap_eq_nil_iff.2 fun _ _ => rfl
  exact ⟨congrArg (· ++ rest.statements) List.filterMap_some, congrArg (· ++ rest.errors) hnone⟩

/-- A source below another. If the upper one has no syntax errors, then the two, with a line feed
between them, have the statements of the upper one and behind them those of the lower one, and the
errors of the lower one. What is in the lower one stands further down, by one line more than there
are line feeds in the upper one; nothing else of it changes. -/
theorem ofSource_append_lineFeed {upper : List UInt8} (h : (ofSource upper).errors = [])
    (lower : List UInt8) :
    (ofSource (upper ++ lineFeed :: lower)).tree
        = .node .program "" (some .start) ((ofSource upper).statements ++
            (ofSource lower).statements.map (Tree.relocate (below (1 + upper.count lineFeed)))) ∧
      (ofSource (upper ++ lineFeed :: lower)).errors
        = (ofSource lower).errors.map fun e =>
            ⟨e.cause, e.position.down (1 + upper.count lineFeed)⟩ := by
  obtain ⟨⟨q, hending⟩, d, htokens, hstatements⟩ := ofSource_iff_derivation.1 ⟨h, rfl⟩
  -- the stream is that of the upper source up to its end, and then that of the lower one
  have hstream := Lexing.stream_append_lineFeed hending (decode lower)
  rw [count_decode, ← decode_append_lineFeed] at hstream
  have houtcomes := outcomes_run_sentence htokens
    ((Lexing.ofChars (decode lower)).stream.map (Token.relocate (below (1 + upper.count lineFeed))))
  rw [← hstream] at houtcomes
  obtain ⟨htrees, herrors⟩ := parts_of_outcomes houtcomes
  obtain ⟨htrees', herrors'⟩ := ofTokens_relocate (below (1 + upper.count lineFeed))
    (Lexing.exists_isTerminal_stream _) fun t => Lexing.position_ne_none_of_mem_stream
  refine ⟨congrArg (Tree.node .program "" (some .start)) ?_, herrors.trans herrors'⟩
  rw [← hstatements]
  exact htrees.trans (congrArg (d.statements ++ ·) htrees')

/-- A comment that is broken off inside of a character, and below it a statement without value. -/
theorem ofSource_append_lineFeed_sample :
    let upper := Utf8.encode "x;\ny; // ".toList ++ [0xE2, 0x82]
    let lower := Utf8.encode "z;\nint y = ;".toList
    (ofSource upper).errors = [] ∧
      (ofSource (upper ++ lineFeed :: lower)).tree
          = .node .program "" (some .start) ((ofSource upper).statements ++
              (ofSource lower).statements.map (Tree.relocate (below 2))) ∧
        (ofSource (upper ++ lineFeed :: lower)).errors = [⟨.extraneous ";", ⟨4, 9⟩⟩] := by
  intro upper lower
  have h : (ofSource upper).errors = [] := by decide +kernel
  have hlower : (ofSource lower).errors = [⟨.extraneous ";", ⟨2, 9⟩⟩] := by decide +kernel
  obtain ⟨htree, herrors⟩ := ofSource_append_lineFeed h lower
  rw [hlower] at herrors
  exact ⟨h, htree, herrors⟩

end Parse

end ScalarLang
