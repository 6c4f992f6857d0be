import ScalarLang.Proofs.Analysis.Conformance
import ScalarLang.Proofs.Analysis.Violation
import ScalarLang.Proofs.Source.Sentence

/-!
# Numbers out of range

The tree of a source without syntax errors has the documented layout, so all that analysis checks of
the layout holds of it, but for one thing: a numeral may be too large to denote a value. It is so from
`2 ^ 1024 - 2 ^ 970` on, halfway between the greatest finite value and the power of two that would
follow it. A source is called malformed for such a number only.

* `Numeral.value?_eq_none_iff`: which numerals denote no value.
* `Phrase.documented_tree`, `Statement.documented_tree`: the layout of the trees of a source.
* `Verdict.malformed_only_out_of_range`: when a source is called malformed.
-/

namespace ScalarLang

/-! ## Where the range of the format ends -/

namespace Binary64

/-- The last midpoint is `2 ^ 1024 - 2 ^ 970`. -/
theorem midpoint_infinityRank_pred :
    midpoint (infinityRank - 1) = (2 ^ 1024 - 2 ^ 970) * 2 ^ 1075 := by
  -- the greatest finite magnitude has the greatest exponent and all bits of the fraction
  have hgreatest : units (infinityRank - 1) = (2 ^ 53 - 1) * 2 ^ 2045 := by
    have hbits : (2 : Nat) ^ 52 + (2 ^ 52 - 1) = 2 ^ 53 - 1 := by norm_num
    rw [show infinityRank - 1 = 2046 * 2 ^ 52 + (2 ^ 52 - 1) by decide,
      units_of_parts 2046 _ (by norm_num), if_neg (by norm_num), hbits]
  have hdouble (n : Nat) : (2 : Nat) ^ 52 * 2 ^ (n + 1) = 2 ^ 53 * 2 ^ n := by ring
  have hnext : units (infinityRank - 1 + 1) = 2 ^ 53 * 2 ^ 2045 := by
    rw [show infinityRank - 1 + 1 = 2047 * 2 ^ 52 + 0 by decide,
      units_of_parts 2047 0 (by norm_num), if_neg (by norm_num), Nat.add_zero,
      show 2047 - 1 = 2045 + 1 by decide, hdouble]
  have hsum : (2 : Nat) ^ 53 - 1 + 2 ^ 53 = 2 ^ 54 - 1 := by norm_num
  have hones {a b c : Nat} (hc : c = a + b) : (2 ^ a - 1) * 2 ^ b = 2 ^ c - 2 ^ b := by
    rw [hc, Nat.sub_mul, Nat.one_mul, Nat.pow_add]
  calc
    midpoint (infinityRank - 1) = (2 ^ 53 - 1) * 2 ^ 2045 + 2 ^ 53 * 2 ^ 2045 := by
      rw [midpoint, hgreatest, hnext]
    _ = (2 ^ 54 - 1) * 2 ^ 2045 := by rw [← Nat.add_mul, hsum]
    _ = (2 ^ 54 - 1) * 2 ^ 970 * 2 ^ 1075 := by rw [Nat.mul_assoc, ← Nat.pow_add]
    _ = (2 ^ 1024 - 2 ^ 970) * 2 ^ 1075 := by rw [hones (c := 1024) (by decide)]

/-- Infinity is reached from the last midpoint on, which belongs to it. -/
theorem reaches_infinityRank_iff {n d : Nat} :
    reaches n d infinityRank = true ↔ (2 ^ 1024 - 2 ^ 970) * d ≤ n := by
  have heven : (infinityRank - 1 + 1) % 2 = 0 := by decide
  rw [show infinityRank = infinityRank - 1 + 1 by decide, reaches_succ_iff,
    midpoint_infinityRank_pred, Nat.mul_right_comm]
  simp only [heven, and_true, ← Nat.le_iff_lt_or_eq]
  exact Nat.mul_le_mul_right_iff (by positivity)

end Binary64

namespace Numeral

/-- The text is a numeral of at least `2 ^ 1024 - 2 ^ 970`. -/
def OutOfRange (text : String) : Prop :=
  ∃ whole fraction, text = String.ofList (layout whole fraction) ∧ whole ≠ [] ∧ Digits whole ∧
    Digits fraction ∧
      (2 ^ 1024 - 2 ^ 970) * 10 ^ fraction.length ≤ ofDigits 10 (whole ++ fraction)

/-- A ratio has no nearest value exactly if it is out of range. -/
theorem nearest?_eq_none_iff {negative : Bool} {n d : Nat} (hd : 0 < d) :
    nearest? negative (n, d) = none ↔ (2 ^ 1024 - 2 ^ 970) * d ≤ n := by
  have hfinite : (Binary64.ofRatio negative n d).isFinite = true ↔
      Binary64.nearestRank n d ≠ Binary64.infinityRank := by
    have hle := Binary64.nearestRank_le_infinityRank n d
    show decide (Binary64.nearestRank n d < Binary64.infinityRank) = true ↔ _
    rw [decide_eq_true_iff]
    omega
  rw [← Binary64.reaches_infinityRank_iff, ← Binary64.nearestRank_eq_infinityRank_iff hd, nearest?]
  by_cases h : (Binary64.ofRatio negative n d).isFinite = true
  · simp [h, hfinite.1 h]
  · simp [h, not_not.1 fun hne => h (hfinite.2 hne)]

/-- A numeral denotes no value exactly if it is out of range. -/
theorem value?_eq_none_iff {text : String} (h : IsNumeral text.toList) :
    value? text = none ↔ OutOfRange text := by
  have hlayout {whole fraction : List Char} (hne : whole ≠ []) (hw : Digits whole)
      (hf : Digits fraction) : value? (String.ofList (layout whole fraction)) = none ↔
        (2 ^ 1024 - 2 ^ 970) * 10 ^ fraction.length ≤ ofDigits 10 (whole ++ fraction) := by
    rw [value?_layout hne hw hf, nearest?_eq_none_iff (Nat.pow_pos (by norm_num))]
  constructor
  · intro hvalue
    generalize hcs : text.toList = cs at h
    obtain ⟨hne, hw, hf⟩ := h
    have htext := (String.ofList_toList (s := text)).symm.trans (congrArg String.ofList hcs)
    rw [htext] at hvalue
    exact ⟨_, _, htext, hne, hw, hf, (hlayout hne hw hf).1 hvalue⟩
  · rintro ⟨whole, fraction, rfl, hne, hw, hf, hle⟩
    exact (hlayout hne hw hf).2 hle

end Numeral

/-! ## The layout of parsed trees -/

namespace Grammar

open Layout Lexeme

/-- An operator is spelled as one of the symbols of its class. -/
theorem text_mem_symbols {cls : BinaryClass} {t : Token} (ht : t.kind ∈ operators cls)
    (hspelled : Spelled t.kind t.text.toList) : t.text ∈ cls.symbols := by
  cases cls with
  | conjunction | disjunction =>
    rw [List.mem_singleton.1 ht] at hspelled
    simp [text_of_spelled hspelled rfl, BinaryClass.symbols]
  | additive =>
    simp only [operators, List.mem_cons, List.not_mem_nil, or_false] at ht
    rcases ht with ht | ht <;> rw [ht] at hspelled <;>
      simp [text_of_spelled hspelled rfl, BinaryClass.symbols]
  | multiplicative =>
    simp only [operators, List.mem_cons, List.not_mem_nil, or_false] at ht
    rcases ht with ht | ht | ht <;> rw [ht] at hspelled <;>
      simp [text_of_spelled hspelled rfl, BinaryClass.symbols]

/-- The tree of a phrase has the documented layout. -/
theorem Phrase.documented_tree {s : Nonterminal} (d : Phrase s)
    (hspelled : ∀ t ∈ d.tokens, Spelled t.kind t.text.toList) : documented.IsValue d.tree := by
  induction d with
  | operand inner ih => exact ih hspelled
  | primary inner ih => exact ih hspelled
  | number literal =>
    have hliteral := hspelled _ List.mem_cons_self
    exact .number _ _ (isNumeral_of_spelled hliteral literal.property)
  | boolean literal =>
    obtain ⟨e, he⟩ :=
      Analysis.exists_booleanLiteral? literal.property (hspelled _ List.mem_cons_self)
    refine .boolean _ _ ?_
    unfold Analysis.booleanLiteral? at he
    split_ifs at he with htrue hfalse
    · exact .inl htrue
    · exact .inr hfalse
  | var name => exact .var _ _ _
  | unary op sign inner ih =>
    exact .unary op _ _ (ih fun t ht => hspelled t (List.mem_cons_of_mem _ ht))
  | parens opening inner closing ih =>
    exact .parens _ _ (ih fun t ht => hspelled t (by simp [Phrase.tokens, ht]))
  | @binary cls left op right ihl ihr =>
    have hleft := ihl fun t ht => hspelled t (by simp [Phrase.tokens, ht])
    have hright := ihr fun t ht => hspelled t (by simp [Phrase.tokens, ht])
    have hsymbol := text_mem_symbols op.property (hspelled op.val (by simp [Phrase.tokens]))
    exact .binary _ _ hleft hright hsymbol

/-- The tree of a statement has the documented layout. -/
theorem Statement.documented_tree (d : Statement)
    (hspelled : ∀ t ∈ d.tokens, Spelled t.kind t.text.toList) : documented.IsStatement d.tree := by
  cases d with
  | declaration type name assign value =>
    have hvalue := value.documented_tree fun t ht => hspelled t (by simp [Statement.tokens, ht])
    have htype := Analysis.exists_ofName? type.property (hspelled _ List.mem_cons_self)
    exact .declaration _ _ (Analysis.exists_ofName?_iff.1 htype) hvalue
  | assignment name assign value =>
    have hvalue := value.documented_tree fun t ht => hspelled t (by simp [Statement.tokens, ht])
    exact .assignment _ _ hvalue
  | expression value => exact .value (value.documented_tree hspelled)

end Grammar

/-- The tree of a source without syntax errors has the documented layout. -/
theorem Parse.documented_tree {source : List UInt8} (h : (ofSource source).errors = []) :
    Layout.documented.IsProgram (ofSource source).tree := by
  obtain ⟨d, -, hstatements, hspelled⟩ := exists_statements_of_ofSource h
  refine .mk _ _ fun statement hmem => ?_
  rw [hstatements] at hmem
  obtain ⟨st, hst, rfl⟩ := List.mem_map.1 hmem
  exact st.documented_tree (hspelled st hst)

/-! ## The numbers of parsed trees -/

namespace Tree

variable {layout : Layout} {t : Tree} {text : String} {position : Option Position}
  {children : List Tree}

/-- A leaf has no other node. -/
theorem eq_of_mem_forest_leaf {node : Tree} {kind : NodeKind}
    (h : node ∈ forest [.leaf kind text position]) : node = .leaf kind text position := by
  rcases mem_forest_node_iff.1 h with hroot | ⟨_, hchild, -⟩
  · exact hroot
  · cases hchild

/-- A number in a tree of another kind is in one of its children. -/
theorem exists_child_of_number_mem {kind : NodeKind} {label : String} {p : Option Position}
    {ts : List Tree} (hkind : kind ≠ .number)
    (h : .node .number text position children ∈ forest [.node kind label p ts]) :
    ∃ child ∈ ts, .node .number text position children ∈ forest [child] := by
  rcases mem_forest_node_iff.1 h with hroot | hchild
  · cases hroot
    exact absurd rfl hkind
  · exact hchild

/-- The numbers of an expression are leaves, and the layout allows them. -/
theorem IsExpression.number_of_mem (ht : t.IsExpression) (hlayout : layout.IsValue t)
    (hmem : .node .number text position children ∈ forest [t]) :
    children = [] ∧ layout.number text := by
  induction ht with
  | var | boolean => cases eq_of_mem_forest_leaf hmem
  | number =>
    cases eq_of_mem_forest_leaf hmem
    cases hlayout with
    | number _ _ h => exact ⟨rfl, h⟩
  | parens _ _ _ ih =>
    obtain ⟨child, hchild, hnode⟩ := exists_child_of_number_mem NodeKind.noConfusion hmem
    rw [List.mem_singleton.1 hchild] at hnode
    cases hlayout with
    | parens _ _ h => exact ih h hnode
  | unary _ _ _ _ ih =>
    obtain ⟨child, hchild, hnode⟩ := exists_child_of_number_mem NodeKind.noConfusion hmem
    rw [List.mem_singleton.1 hchild] at hnode
    cases hlayout with
    | unary _ _ _ h => exact ih h hnode
  | binary _ _ _ _ _ _ _ ihl ihr =>
    obtain ⟨child, hchild, hnode⟩ := exists_child_of_number_mem NodeKind.noConfusion hmem
    simp only [List.mem_cons, List.not_mem_nil, or_false] at hchild
    cases hlayout with
    | binary _ _ hl hr _ =>
      rcases hchild with rfl | rfl | rfl
      · exact ihl hl hnode
      -- the operator is a bare token
      · cases eq_of_mem_forest_leaf hnode
      · exact ihr hr hnode

theorem IsStatement.number_of_mem (ht : t.IsStatement) (hlayout : layout.IsStatement t)
    (hmem : .node .number text position children ∈ forest [t]) :
    children = [] ∧ layout.number text := by
  cases ht with
  | declaration _ _ _ _ _ _ hvalue =>
    obtain ⟨child, hchild, hnode⟩ := exists_child_of_number_mem NodeKind.noConfusion hmem
    simp only [List.mem_cons, List.not_mem_nil, or_false] at hchild
    cases hlayout with
    | value h => exact absurd rfl h.kind_ne.1
    | declaration _ _ _ h =>
      -- the type and the name are bare tokens
      rcases hchild with rfl | rfl | rfl
      · cases eq_of_mem_forest_leaf hnode
      · cases eq_of_mem_forest_leaf hnode
      · exact hvalue.number_of_mem h hnode
  | assignment _ _ _ _ hvalue =>
    obtain ⟨child, hchild, hnode⟩ := exists_child_of_number_mem NodeKind.noConfusion hmem
    simp only [List.mem_cons, List.not_mem_nil, or_false] at hchild
    cases hlayout with
    | value h => exact absurd rfl h.kind_ne.2
    | assignment _ _ h =>
      rcases hchild with rfl | rfl
      · cases eq_of_mem_forest_leaf hnode
      · exact hvalue.number_of_mem h hnode
  | expression hvalue =>
    cases hlayout with
    | declaration => cases hvalue
    | assignment => cases hvalue
    | value h => exact hvalue.number_of_mem h hmem

theorem IsProgram.number_of_mem (ht : t.IsProgram) (hlayout : layout.IsProgram t)
    (hmem : .node .number text position children ∈ forest [t]) :
    children = [] ∧ layout.number text := by
  obtain ⟨_, _, hstatements⟩ := ht
  obtain ⟨child, hchild, hnode⟩ := exists_child_of_number_mem NodeKind.noConfusion hmem
  exact (hstatements child hchild).number_of_mem (hlayout.isStatement child hchild) hnode

end Tree

namespace Verdict

open Layout Analysis

/-- When a source without syntax errors is called malformed. Its tree has the documented layout, there
is a verdict on it, and if the verdict calls the tree malformed, it does so for a number of the tree
that is out of range. Such a number is never accepted: the tree is then rejected for a fatal reason,
that one or another that comes first. -/
theorem malformed_only_out_of_range {source : List UInt8}
    (h : (Parse.ofSource source).errors = []) :
    documented.IsProgram (Parse.ofSource source).tree ∧
      ∃ v, ofTree? (Parse.ofSource source).tree = some v ∧
        (∀ kind reason position, v.fatal = some ⟨.malformed kind reason, position⟩ →
          kind = .number ∧ ∃ text,
            .leaf .number text position ∈ Tree.forest [(Parse.ofSource source).tree] ∧
              Numeral.OutOfRange text ∧ reason = s!"invalid number '{text}'") ∧
          ∀ text position,
            .leaf .number text position ∈ Tree.forest [(Parse.ofSource source).tree] →
              Numeral.OutOfRange text → v.fatal ≠ none := by
  have hdocumented := Parse.documented_tree h
  have hparsed : (Parse.ofSource source).tree.IsProgram := Parse.isProgram_tree _
  obtain ⟨v, hv, hends⟩ := exists_ofTree?_of_layout (fun _ _ hop _ => hop) hdocumented
  refine ⟨hdocumented, v, hv, fun kind reason position hfatal => ?_, ?_⟩
  · cases hends _ hfatal with
    | other hother => exact absurd rfl (hother kind reason)
    | number hmem hnumeral hvalue =>
      obtain ⟨rfl, -⟩ := hparsed.number_of_mem hdocumented hmem
      exact ⟨rfl, _, hmem, (Numeral.value?_eq_none_iff hnumeral).1 hvalue, rfl⟩
  · intro text position hmem hrange hfatal
    obtain ⟨-, hnumeral⟩ := hparsed.number_of_mem hdocumented hmem
    -- without a fatal reason every number denotes a value
    obtain ⟨-, hvalue⟩ := hparsed.number_of_mem (isProgram_of_fatal_eq_none hv hfatal) hmem
    exact hvalue ((Numeral.value?_eq_none_iff hnumeral).2 hrange)

/-- A source with the number `10 ^ 309`. -/
theorem malformed_only_out_of_range_sample :
    let digits := '1' :: List.replicate 309 '0'
    let source := Utf8.encode ("int a = 1; a = -(".toList ++ digits ++ ");".toList)
    (Parse.ofSource source).errors = [] ∧
      ∃ v, ofTree? (Parse.ofSource source).tree = some v ∧
        v.fatal = some ⟨.malformed .number s!"invalid number '{String.ofList digits}'",
          some ⟨1, 18⟩⟩ ∧
          ∃ number, .leaf .number number (some ⟨1, 18⟩)
              ∈ Tree.forest [(Parse.ofSource source).tree] ∧ Numeral.OutOfRange number := by
  intro digits source
  have h : (Parse.ofSource source).errors = [] := by decide +kernel
  have hverdict : (ofTree? (Parse.ofSource source).tree).map fatal
      = some (some ⟨.malformed .number s!"invalid number '{String.ofList digits}'",
          some ⟨1, 18⟩⟩) := by decide +kernel
  obtain ⟨-, v, hv, hmalformed, -⟩ := malformed_only_out_of_range h
  rw [hv] at hverdict
  have hfatal := Option.some.inj hverdict
  obtain ⟨-, number, hmem, hrange, -⟩ := hmalformed _ _ _ hfatal
  exact ⟨h, v, hv, hfatal, number, hmem, hrange⟩

end Verdict

end ScalarLang
