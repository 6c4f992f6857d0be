import ScalarLang.Proofs.Analysis.Propagation
import ScalarLang.Proofs.Analysis.Violation
import ScalarLang.Proofs.Source.Sentence

/-!
# What is known of variables is what they hold

The statements of a source have numerals for numbers, so what is known behind some of them describes
the memories to which executing them can lead: `known_describes_executions`.
-/

namespace ScalarLang

namespace Grammar

/-- A token that is no number has none. -/
theorem numeralsOnly_leaf {kind : NodeKind} (h : kind ≠ .number) (t : Token) :
    (leaf kind t).NumeralsOnly :=
  .node (fun hkind => absurd hkind h) (by simp)

/-- The numbers of a derivation are numerals. -/
theorem Phrase.numeralsOnly_tree {s : Nonterminal} (d : Phrase s)
    (hspelled : ∀ t ∈ d.tokens, Lexeme.Spelled t.kind t.text.toList) : d.tree.NumeralsOnly := by
  induction d with
  | operand inner ih => exact ih hspelled
  | primary inner ih => exact ih hspelled
  | number literal =>
    have hliteral := hspelled _ List.mem_cons_self
    exact .node (fun _ => Lexeme.isNumeral_of_spelled hliteral literal.property) (by simp)
  | boolean literal => exact numeralsOnly_leaf (by simp) _
  | var name => exact numeralsOnly_leaf (by simp) _
  | unary op sign inner ih =>
    have hinner := ih fun t ht => hspelled t (List.mem_cons_of_mem _ ht)
    exact .node (by simp) (by simpa using hinner)
  | parens opening inner closing ih =>
    have hinner := ih fun t ht => hspelled t (by simp [Phrase.tokens, ht])
    exact .node (by simp) (by simpa using hinner)
  | binary left op right ihl ihr =>
    have hleft := ihl fun t ht => hspelled t (by simp [Phrase.tokens, ht])
    have hright := ihr fun t ht => hspelled t (by simp [Phrase.tokens, ht])
    have hop : (leaf .token op.val).NumeralsOnly := numeralsOnly_leaf (by simp) _
    exact .node (by simp) (by simp [hleft, hop, hright])

/-- The numbers of a statement are numerals. -/
theorem Statement.numeralsOnly_tree (d : Statement)
    (hspelled : ∀ t ∈ d.tokens, Lexeme.Spelled t.kind t.text.toList) : d.tree.NumeralsOnly := by
  have htoken (t : Token) : (leaf .token t).NumeralsOnly := numeralsOnly_leaf (by simp) t
  cases d with
  | declaration type name assign value =>
    have hvalue := value.numeralsOnly_tree fun t ht => hspelled t (by simp [Statement.tokens, ht])
    exact .node (by simp) (by simp [htoken, hvalue])
  | assignment name assign value =>
    have hvalue := value.numeralsOnly_tree fun t ht => hspelled t (by simp [Statement.tokens, ht])
    exact .node (by simp) (by simp [htoken, hvalue])
  | expression value => exact value.numeralsOnly_tree hspelled

end Grammar

namespace Analysis

/-- Behind statements of a source that are analysed to their end, what is known of the variables is
what they hold however the statements are executed. A variable that is known to hold a literal is
declared, the literal has its declared type, and the text of the literal reads back as the value of
the variable, with a point in it exactly if the type is `float`. Nothing more could be known: any
other variable can hold any value. -/
theorem known_describes_executions {source : List UInt8} (h : (Parse.ofSource source).errors = [])
    {before after : List Tree} (hsplit : (Parse.ofSource source).statements = before ++ after)
    (hrun : halt? (run .initial before).result = none) :
    (∃ m, Execution .empty before m) ∧
      (∀ m, Execution .empty before m → ∀ name l, (known before).bindings name = some l →
        ∃ type v, (known before).symbols.typeOf? name = some type ∧ l.type = type ∧
          m name = some ⟨type, v⟩ ∧ Value.ofText? l.text = some v ∧
            ('.' ∈ l.text.toList ↔ type = .float)) ∧
        ∀ name type, (known before).symbols.typeOf? name = some type →
          (known before).bindings name = none →
            ∀ v, ∃ m, Execution .empty before m ∧ m name = some ⟨type, v⟩ := by
  obtain ⟨d, -, hstatements, hspelled⟩ := Parse.exists_statements_of_ofSource h
  have hnumerals : ∀ t ∈ before, t.NumeralsOnly := by
    intro t ht
    have hmem : t ∈ (d.map Prod.fst).map Grammar.Statement.tree := by
      rw [← hstatements, hsplit]
      exact List.mem_append_left _ ht
    obtain ⟨statement, hstatement, rfl⟩ := List.mem_map.1 hmem
    exact statement.numeralsOnly_tree (hspelled statement hstatement)
  obtain ⟨result, hresult⟩ : ∃ result, (run .initial before).result = .ok result := by
    cases hresult : (run .initial before).result with
    | error reason => simp [hresult, halt?] at hrun
    | ok result => exact ⟨result, rfl⟩
  have hdescribes := describes_initial.run hnumerals hresult
  obtain ⟨⟨m, _, rfl, hexecution⟩, hagrees, hfree⟩ := hdescribes
  refine ⟨⟨m, hexecution⟩, fun m hm name l hl => ?_, fun name type htype hunknown v => ?_⟩
  · have hm := hagrees m ⟨_, rfl, hm⟩
    obtain ⟨v, hv, hdenotes⟩ := hm.holds name l hl
    refine ⟨l.type, v, ?_, rfl, hv, hdenotes.ofText?, hdenotes.point_mem_iff⟩
    exact (hm.declared name).symm.trans (by rw [hv, Option.map_some])
  · obtain ⟨m, ⟨_, rfl, hexecution⟩, hreads⟩ := hfree name hunknown v
    obtain ⟨w, hw⟩ := (hagrees m ⟨_, rfl, hexecution⟩).exists_value htype
    obtain rfl := hreads _ hw
    exact ⟨m, hexecution, hw⟩

/-- Copies, signs, a second declaration and a read before the first store, up to a fatal error. -/
theorem known_describes_executions_sample :
    let source := Utf8.encode
      "float x = 2; int y = -3; x = -(y); int y = 7; int z = z + 1; bool b = true; y = b;".toList
    let before := (Parse.ofSource source).statements.take 6
    (Parse.ofSource source).errors = [] ∧ halt? (run .initial before).result = none ∧
      (known before).bindings "x" = some ⟨.float, "3.0"⟩ ∧
        (∀ m, Execution .empty before m →
          ∃ v, m "x" = some ⟨.float, v⟩ ∧ Value.ofText? "3.0" = some v) ∧
          ∀ v, ∃ m, Execution .empty before m ∧ m "z" = some ⟨.int, v⟩ := by
  intro source before
  have hfacts : (Parse.ofSource source).errors = [] ∧
      halt? (run .initial before).result = none ∧
        (known before).bindings "x" = some ⟨.float, "3.0"⟩ ∧
          (known before).symbols.typeOf? "z" = some .int ∧
            (known before).bindings "z" = none := by decide +kernel
  obtain ⟨h, hrun, hx, htype, hz⟩ := hfacts
  have hsplit : (Parse.ofSource source).statements
      = before ++ (Parse.ofSource source).statements.drop 6 := (List.take_append_drop 6 _).symm
  obtain ⟨-, hknown, hany⟩ := known_describes_executions h hsplit hrun
  refine ⟨h, hrun, hx, fun m hm => ?_, hany "z" .int htype hz⟩
  obtain ⟨type, v, -, rfl, hv, htext, -⟩ := hknown m hm "x" _ hx
  exact ⟨v, hv, htext⟩

end Analysis

end ScalarLang
