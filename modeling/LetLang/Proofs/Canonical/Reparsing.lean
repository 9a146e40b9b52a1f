import LetLang.Proofs.Canonical.Rendering
import LetLang.Proofs.Grammar.Acceptance

/-! Canonical text is parsed back into the program it was written from, if the
levels of nesting it needs are there, and otherwise with a diagnostic. It needs
more of them than the source it comes from may have needed, since every operator
gets a group: there are sources without mistakes whose canonical text has one. -/
namespace LetLang

namespace Script

variable {script : Script} {program : Program}

/-- A script that was printed from a program and stays within the limit is parsed into that
program, without diagnostics. -/
theorem Writes.parse_render (h : script.Writes program)
    (hLimit : program.CanonicalWithinLimit) : Program.parse program.render = (program, []) := by
  have hAll := readAll_tokens h.grammatical (h.withinLimit_iff.mpr hLimit)
    Attempt.atEnd_nil
  rw [List.append_nil, h.tree_eq, ← h.stream_eq] at hAll
  exact Program.parse_of_complete hAll

/-- Beyond the limit at least one diagnostic is recorded. What is parsed besides is not
said. -/
theorem Writes.parse_render_ne (h : script.Writes program)
    (hLimit : ¬ program.CanonicalWithinLimit) : (Program.parse program.render).2 ≠ [] := by
  obtain ⟨attempt, hMem, hDiagnostic⟩ :=
    exists_diagnostic h.grammatical (mt h.withinLimit_iff.mp hLimit)
      Attempt.atEnd_nil
  rw [List.append_nil, ← h.stream_eq] at hMem
  intro hNone
  exact hDiagnostic (Program.diagnostic?_eq_none_of_parse hNone hMem)

end Script

namespace Phrase

/-- A name behind so many exclamation marks. -/
def negations : Nat → Phrase
  | 0 => .name "x"
  | depth + 1 => .unary .bang (negations depth)

def negationsText : Nat → String
  | 0 => "x"
  | depth + 1 => "!" ++ negationsText depth

theorem operator?_negations (depth : Nat) : (negations depth).operator? = none := by
  cases depth <;> rfl

theorem grammatical_negations (depth : Nat) : (negations depth).Grammatical := by
  induction depth with
  | zero => exact .name "x"
  | succ depth ih => exact .unary List.mem_cons_self ih (operator?_negations depth)

/-- Written without groups, each negation costs one level. -/
theorem need_negations (depth : Nat) : (negations depth).need = 1 + depth := by
  induction depth with
  | zero => rfl
  | succ depth ih => rw [negations, need_unary, ih, Nat.add_comm depth 1]

/-- In canonical text each costs two, one of them for its group. The canonical text of a
source within the limit can therefore be beyond it. -/
theorem canonicalNeed_negations (depth : Nat) :
    (negations depth).tree.canonicalNeed = 1 + 2 * depth := by
  induction depth with
  | zero => rfl
  | succ depth ih =>
      rw [negations, tree, Expr.canonicalNeed, ih]
      omega

/-- Well-formedness sets no bound on the depth, so these trees go beyond what is ever
parsed. -/
theorem wellFormed_negations (depth : Nat) : (negations depth).tree.WellFormed := by
  induction depth with
  | zero => exact .name (by decide)
  | succ depth ih => exact .unary List.mem_cons_self ih

/-- By induction on the depth; an exclamation mark is no part of a longer symbol, as no
equals sign follows. -/
theorem stream_negationsText (depth : Nat) :
    Lexer.stream (Text.bytes (negationsText depth)) = (negations depth).tokens := by
  induction depth with
  | zero =>
      have hName := Lexer.stream_name_append (show Text.IsName "x" by decide) Byte.breaks_nil
      rwa [List.append_nil, Lexer.stream_nil] at hName
  | succ depth ih =>
      have hAlone : ∀ byte ∈ (Text.bytes (negationsText depth)).head?,
          (Token.ofSymbol .bang).extendedBy byte = false := by
        intro byte hByte
        cases depth with
        | zero =>
            obtain rfl : 0x78 = byte := Option.some.inj hByte
            decide
        | succ depth =>
            rw [negationsText, Text.bytes_append] at hByte
            obtain rfl : 0x21 = byte := Option.some.inj hByte
            decide
      have hBang := Lexer.stream_symbol_append .bang hAlone
      rw [negationsText, Text.bytes_append, negations, tokens, ← ih]
      exact hBang

end Phrase

namespace Program

/-- The program that returns a name behind so many exclamation marks. -/
def returningNegations (depth : Nat) : Program :=
  ⟨[.result (.ofKeyword .returnWord) (some (Phrase.negations depth).tree)]⟩

theorem wellFormed_returningNegations (depth : Nat) :
    (returningNegations depth).WellFormed := by
  intro statement hStatement
  obtain rfl := List.mem_singleton.mp hStatement
  exact .result (Phrase.wellFormed_negations depth)

/-- The canonical text is within the limit up to 127 negations. -/
theorem canonicalWithinLimit_returningNegations (depth : Nat) :
    (returningNegations depth).CanonicalWithinLimit ↔ 1 + 2 * depth ≤ Expr.nestingLimit := by
  simp [CanonicalWithinLimit, returningNegations, Statement.value, Phrase.canonicalNeed_negations]

/-- Without groups the source is parsed up to 255 of them, about twice as many. -/
theorem parse_returningNegations {depth : Nat} (h : 1 + depth ≤ Expr.nestingLimit) :
    parse ("return " ++ Phrase.negationsText depth) = (returningNegations depth, []) := by
  let script : Script := ⟨[⟨.result, Phrase.negations depth, false⟩]⟩
  have hScript : script.Grammatical := by
    refine ⟨?_, List.isChain_singleton _⟩
    intro sentence hSentence
    obtain rfl := List.mem_singleton.mp hSentence
    exact Phrase.grammatical_negations depth
  have hLimit : script.WithinLimit := by
    intro sentence hSentence
    obtain rfl := List.mem_singleton.mp hSentence
    rwa [Phrase.need_negations]
  have hStream : Lexer.stream (Text.bytes ("return " ++ Phrase.negationsText depth)) =
      script.tokens := by
    have hReturn : Text.bytes "return " =
        Text.bytes Keyword.returnWord.spelling ++ Text.bytes " " := by decide
    rw [Text.bytes_append, hReturn, List.append_assoc,
      Lexer.stream_keyword_append .returnWord (Byte.breaks_space _), Lexer.stream_space_append,
      Phrase.stream_negationsText]
    simp [script, Script.tokens, Sentence.tokens, Sentence.ending, Opening.tokens]
  have hAll := Script.readAll_tokens hScript hLimit
    Attempt.atEnd_nil
  rw [List.append_nil, ← hStream] at hAll
  exact parse_of_complete hAll

end Program

namespace Program

/-- A binding of a negated sum, and an expression on its own. -/
def negatedSum : Program :=
  ⟨[.binding (.ofKeyword .letWord) ⟨⟨.ident, "x"⟩, "x"⟩
      (some (.unary (.ofSymbol .bang) "!"
        (.binary (.ofSymbol .plus) (.integer ⟨.int, "017"⟩ 15) "+" (.name ⟨⟨.ident, "y"⟩, "y"⟩)))),
    .expression ⟨.ident, "x"⟩ (some (.name ⟨⟨.ident, "x"⟩, "x"⟩))]⟩

theorem wellFormed_negatedSum : negatedSum.WellFormed := by
  have hX : Text.IsName "x" := by decide
  have hNumeral : Expr.WellFormed (.integer ⟨.int, "017"⟩ 15) := .integer (by decide) (by decide)
  have hY : Expr.WellFormed (.name ⟨⟨.ident, "y"⟩, "y"⟩) := .name (by decide)
  intro statement hStatement
  rcases List.mem_cons.mp hStatement with rfl | hStatement
  · exact .binding hX (.unary List.mem_cons_self (.binary List.mem_cons_self hNumeral hY))
  · obtain rfl := List.mem_singleton.mp hStatement
    exact .expression (.name hX)

theorem canonicalWithinLimit_negatedSum : negatedSum.CanonicalWithinLimit := by
  simp [CanonicalWithinLimit, negatedSum, Statement.value, Expr.canonicalNeed, Expr.nestingLimit]

end Program

/-- A well-formed program is what its canonical text is parsed into, token by
token, exactly while no value needs more levels of nesting than there are. -/
theorem Program.parse_render_of_wellFormed {program : Program} (h : program.WellFormed) :
    (program.CanonicalWithinLimit → parse program.render = (program, [])) ∧
      (¬ program.CanonicalWithinLimit → (parse program.render).2 ≠ []) := by
  obtain ⟨script, hScript⟩ := h.exists_script
  exact ⟨hScript.parse_render, hScript.parse_render_ne⟩

/-- Canonical text within the limit, and a program of the same kind beyond it. -/
theorem Program.parse_render_negatedSum :
    parse "let x = (!(017 + y));\nx" = (negatedSum, []) ∧
      (parse (returningNegations 128).render).2 ≠ [] := by
  constructor
  · exact (parse_render_of_wellFormed wellFormed_negatedSum).1 canonicalWithinLimit_negatedSum
  · apply (parse_render_of_wellFormed (wellFormed_returningNegations 128)).2
    rw [canonicalWithinLimit_returningNegations]
    decide

namespace Phrase

/-- By induction on the phrase. Parentheses leave no node, and each other node keeps a
token that the lexer has spelled. -/
theorem Grammatical.wellFormed_tree {phrase : Phrase} (h : phrase.Grammatical)
    (hSpelled : ∀ token ∈ phrase.tokens, token.Spelled) : phrase.tree.WellFormed := by
  induction h with
  | name word => exact .name (hSpelled _ List.mem_cons_self)
  | integer hValue => exact .integer (hSpelled _ List.mem_cons_self) hValue
  | unary hOperator hOperand hSimple ih =>
      exact .unary hOperator (ih fun token hToken => hSpelled token (List.mem_cons_of_mem _ hToken))
  | group hInner ih =>
      refine ih fun token hToken => hSpelled token ?_
      exact List.mem_cons_of_mem _ (List.mem_append_left _ hToken)
  | binary hOperator hLeft hRight hLeftBinds hRightBinds ihLeft ihRight =>
      refine .binary hOperator (ihLeft fun token hToken => hSpelled token ?_)
        (ihRight fun token hToken => hSpelled token ?_)
      · exact List.mem_append_left _ hToken
      · exact List.mem_append_right _ (List.mem_cons_of_mem _ hToken)

end Phrase

namespace Sentence

/-- The token in front of an expression may be a parenthesis that left no node, so the
statement is made canonical first. -/
theorem wellFormed_canonical_tree {sentence : Sentence} (hValue : sentence.value.Grammatical)
    (hSpelled : ∀ token ∈ sentence.tokens, token.Spelled) :
    sentence.tree.canonical.WellFormed := by
  obtain ⟨opening, value, terminated⟩ := sentence
  have hTree : value.tree.WellFormed := by
    refine hValue.wellFormed_tree fun token hToken => hSpelled token ?_
    exact List.mem_append_left _ (List.mem_append_right _ hToken)
  cases opening with
  | binding name =>
      have hName : Text.IsName name :=
        hSpelled ⟨.ident, name⟩ (List.mem_cons_of_mem _ List.mem_cons_self)
      exact .binding hName hTree
  | result => exact .result hTree
  | bare => exact .expression hTree

end Sentence

namespace Script

theorem Grammatical.wellFormed_canonical_tree {script : Script} (h : script.Grammatical)
    (hSpelled : ∀ token ∈ script.tokens, token.Spelled) :
    script.tree.canonical.WellFormed := by
  intro statement hStatement
  obtain ⟨tree, hTree, rfl⟩ := List.mem_map.mp hStatement
  obtain ⟨sentence, hSentence, rfl⟩ := List.mem_map.mp hTree
  refine Sentence.wellFormed_canonical_tree (h.values sentence hSentence) fun token hToken => ?_
  exact hSpelled token (List.mem_flatMap.mpr ⟨sentence, hSentence, hToken⟩)

end Script

namespace Program

/-- What is parsed without diagnostics is well-formed but for the tokens in front of
expression statements. With diagnostics a value may be missing, so nothing is said then. -/
theorem wellFormed_canonical_of_parse {source : String} {program : Program}
    (h : parse source = (program, [])) : program.canonical.WellFormed := by
  obtain ⟨script, rest, hScript, -, hTokens, -, rfl⟩ := exists_script_of_parse h
  refine hScript.wellFormed_canonical_tree fun token hToken => ?_
  exact Lexer.spelled_of_mem_stream (hTokens ▸ List.mem_append_left rest hToken)

/-- What a source without mistakes means is read again from its canonical text,
and written again the same, exactly while the canonical text needs no more
levels of nesting than there are. That its source needed few enough of them does
not decide this. -/
theorem reparse_of_parse {source : String} {program : Program}
    (h : parse source = (program, [])) :
    (program.CanonicalWithinLimit →
      ∃ again, parse program.render = (again, []) ∧ again.SameShape program ∧
        again.render = program.render) ∧
      (¬ program.CanonicalWithinLimit → (parse program.render).2 ≠ []) := by
  obtain ⟨script, hScript⟩ := (wellFormed_canonical_of_parse h).exists_script
  have hRender := program.render_canonical
  constructor
  · intro hLimit
    have hParse := hScript.parse_render (program.canonicalWithinLimit_canonical.mpr hLimit)
    rw [hRender] at hParse
    exact ⟨program.canonical, hParse, program.sameShape_canonical, hRender⟩
  · intro hLimit
    rw [← hRender]
    exact hScript.parse_render_ne (mt program.canonicalWithinLimit_canonical.mp hLimit)

/-- Three negations are printed with three groups and read again the same. -/
theorem reparse_triple_negation :
    ∃ again, parse "return (!(!(!x)));" = (again, []) ∧
      again.SameShape (returningNegations 3) ∧ again.render = "return (!(!(!x)));" := by
  have hSource : parse "return !!!x" = (returningNegations 3, []) := by
    rw [show "return !!!x" = "return " ++ Phrase.negationsText 3 by decide]
    exact parse_returningNegations (by decide)
  refine (reparse_of_parse hSource).1 ?_
  rw [canonicalWithinLimit_returningNegations]
  decide

/-- This source needs about half of the levels of nesting that there are. -/
theorem not_reparsed_of_many_negations :
    parse ("return " ++ Phrase.negationsText 128) = (returningNegations 128, []) ∧
      (parse (returningNegations 128).render).2 ≠ [] := by
  obtain ⟨script, hScript⟩ := (wellFormed_returningNegations 128).exists_script
  refine ⟨parse_returningNegations (by decide), hScript.parse_render_ne ?_⟩
  rw [canonicalWithinLimit_returningNegations]
  decide

end Program

end LetLang
