import LetLang.Proofs.Grammar.Acceptance
import LetLang.Proofs.Token.Division

/-! Spacing. The tokens of an ASCII source can be written out again with any blanks around
them, as long as there are some between two of them, and the same tokens are read from that.
What a source means is therefore in its tokens alone. Beyond ASCII this cannot hold, since
the literal of a stray byte is then written as more bytes than one. -/
namespace LetLang

namespace Text

/-- Spaces, tabs, line feeds and carriage returns, and nothing else. -/
def IsBlank (text : String) : Prop :=
  ∀ character ∈ text.toList, character ∈ [' ', '\t', '\n', '\r']

instance (text : String) : Decidable (IsBlank text) := List.decidableBAll _ text.toList

/-- The lexer's blanks are bytes, and these four characters have one byte each. -/
theorem IsBlank.isBlank_of_mem {text : String} (h : IsBlank text) :
    ∀ byte ∈ bytes text, Byte.isBlank byte = true := by
  have hBlank {character : Char} (hCharacter : character ∈ [' ', '\t', '\n', '\r']) :
      character.toNat < 128 ∧ Byte.isBlank character.toUInt8 = true := by
    fin_cases hCharacter <;> decide
  have hAscii : IsAscii text := fun character hMem => (hBlank (h character hMem)).1
  intro byte hByte
  obtain ⟨character, hMem, rfl⟩ := hAscii.exists_of_mem_bytes hByte
  exact (hBlank (h character hMem)).2

end Text

theorem Byte.isBreak_of_isBlank {byte : UInt8} (h : isBlank byte = true) :
    isBreak byte = true := by
  obtain ⟨⟨value⟩⟩ := byte
  revert value
  decide +kernel

/-- Blanks to write around so many tokens: before the first, and behind each. Only behind
the last there may be none. -/
structure Spacing (count : Nat) where
  lead : String
  gaps : List String
  length_gaps : gaps.length = count
  blank_lead : Text.IsBlank lead
  blank_gaps : ∀ gap ∈ gaps, Text.IsBlank gap
  separated : ∀ gap ∈ gaps.dropLast, gap ≠ ""

namespace Token

/-- The literals of some tokens, each with a gap behind it. -/
def spaced (tokens : List Token) (gaps : List String) : String :=
  String.join (List.zipWith (fun token gap => token.literal ++ gap) tokens gaps)

theorem spaced_cons_cons (token : Token) (tokens : List Token) (gap : String)
    (gaps : List String) :
    spaced (token :: tokens) (gap :: gaps) = token.literal ++ (gap ++ spaced tokens gaps) := by
  rw [spaced, List.zipWith_cons_cons, String.join_cons, String.append_assoc, spaced]

/-- A token is read from its text in front of anything that does not make it longer. -/
theorem ReadFrom.of_breaks {token : Token} {text rest later : List UInt8}
    (h : token.ReadFrom text rest) (hLater : Byte.Breaks later) : token.ReadFrom text later := by
  have hBreak {byte : UInt8} (hByte : byte ∈ later.head?) :
      Byte.isLetter byte = false ∧ Byte.isDigit byte = false ∧ Char.ofUInt8 byte ≠ '=' := by
    have hEach := hLater byte hByte
    simp only [Byte.isBreak, Bool.and_eq_true, Bool.not_eq_true', bne_iff_ne] at hEach
    exact ⟨hEach.1.1, hEach.1.2, hEach.2⟩
  cases h with
  | symbol hRest => exact .symbol fun _ hHead => (hBreak hHead).2.2 (by decide)
  | numeral hText hDigits hRest => exact .numeral hText hDigits fun byte hByte => (hBreak hByte).2.1
  | word hText hLetters hRest => exact .word hText hLetters fun byte hByte => (hBreak hByte).1
  | illegal hByte => exact .illegal hByte

end Token

/-- Some tokens written out with these blanks around them. -/
def Spacing.write (tokens : List Token) (spacing : Spacing tokens.length) : String :=
  spacing.lead ++ Token.spaced tokens spacing.gaps

namespace Lexer

variable {tokens : List Token} {gap lead : String} {gaps : List String}

/-- Nothing is taken in by a token from the blanks behind it, if there are any or no
token follows. -/
theorem breaks_gap (hLength : gaps.length = tokens.length)
    (hGap : Text.IsBlank gap) (hSeparated : ∀ between ∈ (gap :: gaps).dropLast, between ≠ "") :
    Byte.Breaks (Text.bytes (gap ++ Token.spaced tokens gaps)) := by
  by_cases hNone : gap.toList = []
  · obtain rfl : gap = "" := String.toList_eq_nil_iff.mp hNone
    cases gaps with
    | nil =>
        obtain rfl := List.length_eq_zero_iff.mp hLength.symm
        exact Byte.breaks_nil
    | cons next gaps => exact absurd rfl (hSeparated "" List.mem_cons_self)
  · obtain ⟨first, rest, hBytes⟩ := List.exists_cons_of_ne_nil (Text.bytes_ne_nil hNone)
    have hFirst : Byte.isBlank first = true :=
      hGap.isBlank_of_mem first (hBytes ▸ List.mem_cons_self)
    rw [Text.bytes_append, hBytes, List.cons_append]
    exact Byte.breaks_cons (Byte.isBreak_of_isBlank hFirst) _

/-- Tokens that ASCII bytes divide into are those of the text in which they are written
out again. The blanks before the first are any, since in the induction they are the gap
behind the token before. -/
theorem Division.spaced {bytes : List UInt8} (h : Division bytes tokens)
    (hAscii : ∀ byte ∈ bytes, byte.toNat < 128) (hLength : gaps.length = tokens.length)
    (hLead : Text.IsBlank lead) (hGaps : ∀ gap ∈ gaps, Text.IsBlank gap)
    (hSeparated : ∀ gap ∈ gaps.dropLast, gap ≠ "") :
    Division (Text.bytes (lead ++ Token.spaced tokens gaps)) tokens := by
  induction h generalizing lead gaps with
  | blanks hGap =>
      obtain rfl := List.length_eq_zero_iff.mp hLength
      have hText : lead ++ Token.spaced [] [] = lead := String.append_empty
      rw [hText]
      exact .blanks hLead.isBlank_of_mem
  | @token before text rest token tokens hBefore hToken hRest ih =>
      obtain ⟨gap, gaps, rfl⟩ := List.exists_cons_of_length_eq_add_one hLength
      have hLater : gaps.length = tokens.length := Nat.succ.inj hLength
      have hGap := hGaps gap List.mem_cons_self
      have hLiteral : Text.bytes token.literal = text := by
        rw [hToken.literal_eq]
        refine Text.bytes_ofCodePoints fun byte hByte => hAscii byte ?_
        exact List.mem_append_left _ (List.mem_append_right _ hByte)
      rw [Token.spaced_cons_cons, Text.bytes_append, Text.bytes_append, hLiteral,
        ← List.append_assoc]
      refine .token hLead.isBlank_of_mem (hToken.of_breaks (breaks_gap hLater hGap hSeparated)) ?_
      refine ih (fun byte hByte => hAscii byte (List.mem_append_right _ hByte)) hLater hGap
        (fun next hNext => hGaps next (List.mem_cons_of_mem _ hNext)) fun next hNext => ?_
      refine hSeparated next ?_
      cases gaps with
      | nil => cases hNext
      | cons first gaps => exact List.mem_cons_of_mem _ hNext

/-- The tokens up to the first end of input, from whatever text they are read again. -/
theorem stream_write {source : String} (hAscii : Text.IsAscii source)
    (hTokens : (ofString source).tokenize.1 = tokens ++ [.eof])
    (spacing : Spacing tokens.length) :
    stream (Text.bytes (spacing.write tokens)) = tokens := by
  have hDivision := division_stream (zero_notMem_beforeNul (Text.bytes source))
  have hBytes : ∀ byte ∈ beforeNul (Text.bytes source), byte.toNat < 128 := fun byte hByte =>
    hAscii.toNat_lt_of_mem byte ((List.takeWhile_sublist _).mem hByte)
  rw [tokenize_ofString] at hTokens
  rw [List.append_cancel_right hTokens] at hDivision
  exact (hDivision.spaced hBytes spacing.length_gaps spacing.blank_lead spacing.blank_gaps
    spacing.separated).stream_eq

end Lexer

open Lexer (ofString tokenize_ofString stream_write)

/-- Spacing has no meaning: with any blanks around them, the tokens of an ASCII source are
read again, and if it holds no NUL it is the same program with the same diagnostics. -/
theorem Program.parse_write {source : String} (hAscii : Text.IsAscii source)
    {tokens : List Token} (hTokens : (ofString source).tokenize.1 = tokens ++ [.eof])
    (spacing : Spacing tokens.length) :
    (ofString (spacing.write tokens)).tokenize.1 = (ofString source).tokenize.1 ∧
      ('\x00' ∉ source.toList → parse (spacing.write tokens) = parse source) := by
  have hStream := stream_write hAscii hTokens spacing
  have hSource : Lexer.stream (Lexer.beforeNul (Text.bytes source)) = tokens := by
    rw [tokenize_ofString] at hTokens
    exact List.append_cancel_right hTokens
  constructor
  · have hContent : ∀ token ∈ tokens, Lexer.isContent token = true := by
      intro token hToken
      rw [← hSource] at hToken
      simpa [Lexer.isContent] using
        Lexer.kind_ne_eof_of_mem_stream (Lexer.zero_notMem_beforeNul _) hToken
    rw [hTokens, Lexer.tokenize_fst]
    refine congrArg (· ++ [.eof]) ((congrArg (List.takeWhile Lexer.isContent) hStream).trans ?_)
    exact List.takeWhile_eq_self_iff.mpr hContent
  · intro hNul
    have hAll : Lexer.beforeNul (Text.bytes source) = Text.bytes source := by
      refine List.takeWhile_eq_self_iff.mpr fun byte hByte => ?_
      rw [bne_iff_ne]
      rintro rfl
      exact hNul ((Text.zero_mem_bytes_iff source).mp hByte)
    rw [hAll] at hSource
    rw [parse_eq, parse_eq, attempts, attempts, hStream, hSource]

/-- Only `==` and the names of this source were next to each other without being one token.
Its second `=` starts no operand, which is found whatever blanks there are. -/
theorem Program.parse_write_equalities :
    (ofString "\ta\n== b\r\n= 1").tokenize.1 =
        [⟨.ident, "a"⟩, .ofSymbol .equal, ⟨.ident, "b"⟩, .ofSymbol .assign, ⟨.int, "1"⟩, .eof] ∧
      (ofString "\ta\n== b\r\n= 1").tokenize.1 = (ofString "a==b=1").tokenize.1 ∧
      parse "\ta\n== b\r\n= 1" =
        (⟨[.expression ⟨.ident, "a"⟩ (some (.binary (.ofSymbol .equal)
              (.name (.ofToken ⟨.ident, "a"⟩)) "==" (.name (.ofToken ⟨.ident, "b"⟩)))),
            .expression (.ofSymbol .assign) none,
            .expression ⟨.int, "1"⟩ (some (.integer ⟨.int, "1"⟩ 1))]⟩,
          [.noOperand (.symbol .assign)]) ∧
      parse "\ta\n== b\r\n= 1" = parse "a==b=1" := by
  let tokens : List Token :=
    [⟨.ident, "a"⟩, .ofSymbol .equal, ⟨.ident, "b"⟩, .ofSymbol .assign, ⟨.int, "1"⟩]
  let spacing : Spacing tokens.length :=
    ⟨"\t", ["\n", " ", "\r\n", " ", ""], rfl, by decide, by decide, by decide⟩
  have hWrite : spacing.write tokens = "\ta\n== b\r\n= 1" := by decide
  have hTokens : (ofString "a==b=1").tokenize.1 = tokens ++ [.eof] := by decide +kernel
  have hAscii : ∀ character ∈ "a==b=1".toList, character.toNat < 128 := by simp
  have hRead := parse_write hAscii hTokens spacing
  rw [hWrite] at hRead
  exact ⟨hRead.1.trans hTokens, hRead.1, by decide +kernel, hRead.2 (by decide)⟩

end LetLang
