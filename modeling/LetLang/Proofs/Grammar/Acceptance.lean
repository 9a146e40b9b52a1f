import LetLang.Proofs.Grammar.Scripts
import LetLang.Proofs.Token.Stream

/-! Acceptance. A source is parsed without diagnostics exactly if its tokens up
to the first end of input are those of a grammatical script that stays within
the limit of nesting, and its program is then the tree of that script. -/
namespace LetLang

open Attempt

namespace Program

/-- The attempts at the statements of a source, in order. -/
def attempts (source : String) : List Attempt := readAll (Lexer.stream (Text.bytes source))

/-- A program and its diagnostics are two views of the same attempts, so both keep their
order. -/
theorem parse_eq (source : String) :
    parse source =
      (⟨(attempts source).filterMap statement?⟩, (attempts source).filterMap diagnostic?) := by
  simp [parse, Parser.program, Parser.ofString, Parser.ofLexer, Lexer.ofString, Lexer.ofBytes,
    attempts]

theorem parse_of_complete {source : String} {statements : List Statement}
    (h : attempts source = statements.map complete) : parse source = (⟨statements⟩, []) := by
  rw [parse_eq, h]
  simp [List.filterMap_map, Function.comp_def, statement?, diagnostic?]

/-- No attempt fails in silence: without diagnostics each of them is complete. -/
theorem diagnostic?_eq_none_of_parse {source : String} (h : (parse source).2 = [])
    {attempt : Attempt} (hAttempt : attempt ∈ attempts source) : attempt.diagnostic? = none := by
  rw [parse_eq] at h
  exact List.filterMap_eq_nil_iff.mp h attempt hAttempt

end Program

/-- The tokens of a phrase hold no end of input, since nothing in the grammar is written
with one. -/
theorem Phrase.kind_ne_eof_of_mem_tokens {phrase : Phrase} {token : Token}
    (h : token ∈ phrase.tokens) : token.kind ≠ .eof := by
  induction phrase with
  | name word =>
      obtain rfl := List.mem_singleton.mp h
      simp
  | integer numeral value =>
      obtain rfl := List.mem_singleton.mp h
      simp
  | unary operator operand ih =>
      rcases List.mem_cons.mp h with rfl | h
      · simp
      · exact ih h
  | group inner ih =>
      rcases List.mem_cons.mp h with rfl | h
      · simp
      · rcases List.mem_append.mp h with h | h
        · exact ih h
        · obtain rfl := List.mem_singleton.mp h
          simp
  | binary left operator right ihLeft ihRight =>
      rcases List.mem_append.mp h with h | h
      · exact ihLeft h
      · rcases List.mem_cons.mp h with rfl | h
        · simp
        · exact ihRight h

theorem Opening.kind_ne_eof_of_mem_tokens {opening : Opening} {token : Token}
    (h : token ∈ opening.tokens) : token.kind ≠ .eof := by
  cases opening with
  | binding name =>
      simp only [Opening.tokens, List.mem_cons, List.not_mem_nil, or_false] at h
      rcases h with rfl | rfl | rfl <;> simp
  | result =>
      obtain rfl := List.mem_singleton.mp h
      simp
  | bare => cases h

theorem Sentence.kind_ne_eof_of_mem_tokens {sentence : Sentence} {token : Token}
    (h : token ∈ sentence.tokens) : token.kind ≠ .eof := by
  obtain ⟨opening, value, terminated⟩ := sentence
  rcases List.mem_append.mp h with h | h
  · rcases List.mem_append.mp h with h | h
    · exact Opening.kind_ne_eof_of_mem_tokens h
    · exact Phrase.kind_ne_eof_of_mem_tokens h
  · unfold Sentence.ending at h
    split at h
    · obtain rfl := List.mem_singleton.mp h
      simp
    · cases h

namespace Script

/-- The tokens of a script hold no end of input, so behind them a source is
cut off exactly at the first. -/
theorem takeWhile_tokens_append (script : Script) {rest : List Token} (hRest : AtEnd rest) :
    (script.tokens ++ rest).takeWhile Lexer.isContent = script.tokens := by
  have hContent : ∀ token ∈ script.tokens, Lexer.isContent token = true := by
    intro token hToken
    obtain ⟨sentence, -, hMem⟩ := List.mem_flatMap.mp hToken
    simpa [Lexer.isContent] using Sentence.kind_ne_eof_of_mem_tokens hMem
  exact Lexer.takeWhile_isContent_append hContent hRest

end Script

/-- A source without diagnostics holds a script, up to its first end of input. -/
theorem Program.exists_script_of_parse {source : String} {program : Program}
    (h : parse source = (program, [])) :
    ∃ script rest, Script.Grammatical script ∧ script.WithinLimit ∧
      Lexer.stream (Text.bytes source) = script.tokens ++ rest ∧ AtEnd rest ∧
      script.tree = program := by
  obtain ⟨script, rest, hScript, hLimit, hTokens, hRest, hAll⟩ :=
    Script.exists_script (fun token => Lexer.spelled_of_mem_stream)
      (fun attempt => diagnostic?_eq_none_of_parse (congrArg Prod.snd h))
  have hTree := parse_of_complete hAll
  rw [h] at hTree
  exact ⟨script, rest, hScript, hLimit, hTokens, hRest, (congrArg Prod.fst hTree).symm⟩

/-- A source has no diagnostics if and only if its tokens up to the first end of
input flatten a grammatical script whose values all stay within the limit of
nesting. Its program is the tree of that script, whichever script it is. -/
theorem Program.parse_eq_iff_exists_script (source : String) (program : Program) :
    Program.parse source = (program, []) ↔
      ∃ script : Script, script.Grammatical ∧ script.WithinLimit ∧
        script.tokens = (Lexer.ofString source).tokenize.1.dropLast ∧ script.tree = program := by
  have hTokenize : (Lexer.ofString source).tokenize.1.dropLast =
      (Lexer.stream (Text.bytes source)).takeWhile Lexer.isContent := by
    rw [Lexer.tokenize_fst, List.dropLast_concat]
    rfl
  rw [hTokenize]
  constructor
  · intro hParse
    obtain ⟨script, rest, hScript, hLimit, hTokens, hRest, hTree⟩ :=
      Program.exists_script_of_parse hParse
    refine ⟨script, hScript, hLimit, ?_, hTree⟩
    rw [hTokens, script.takeWhile_tokens_append hRest]
  · rintro ⟨script, hScript, hLimit, hTokens, rfl⟩
    have hRest : AtEnd ((Lexer.stream (Text.bytes source)).dropWhile Lexer.isContent) := by
      intro token hToken
      have hHead := List.head?_dropWhile_not Lexer.isContent (Lexer.stream (Text.bytes source))
      rw [Option.mem_def.mp hToken] at hHead
      simpa [Lexer.isContent] using hHead
    have hAll := Script.readAll_tokens hScript hLimit hRest
    rw [hTokens, List.takeWhile_append_dropWhile] at hAll
    exact Program.parse_of_complete hAll

end LetLang
