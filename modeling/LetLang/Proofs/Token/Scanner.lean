import LetLang.Proofs.Token.Division

/-! Scanning by index. A scanner keeps its whole input, the index of one byte and of the byte
behind it, and that one byte. Past the end it sees NUL bytes, as it does at a NUL in the input,
and stays where it is. It delivers the tokens that the lexer delivers with the same bytes
ahead, and so do all that are asked of both later. -/
namespace LetLang

structure Scanner where
  input : List UInt8
  position : Nat
  readPosition : Nat
  current : UInt8
deriving DecidableEq

namespace Scanner

/-- A class of bytes that are read in a run. NUL is in none of them, so every run ends,
and neither is any byte beyond ASCII. -/
structure ByteClass where
  contains : UInt8 → Bool
  ne_zero_and_toNat_lt (byte : UInt8) : contains byte = true → byte ≠ 0 ∧ byte.toNat < 128

namespace ByteClass

def blanks : ByteClass where
  contains := Byte.isBlank
  ne_zero_and_toNat_lt := by
    rintro ⟨⟨value⟩⟩
    revert value
    decide +kernel

def letters : ByteClass where
  contains := Byte.isLetter
  ne_zero_and_toNat_lt := by
    rintro ⟨⟨value⟩⟩
    revert value
    decide +kernel

def digits : ByteClass where
  contains := Byte.isDigit
  ne_zero_and_toNat_lt := by
    rintro ⟨⟨value⟩⟩
    revert value
    decide +kernel

variable {bytes : ByteClass} {byte : UInt8}

theorem ne_zero (h : bytes.contains byte = true) : byte ≠ 0 :=
  (bytes.ne_zero_and_toNat_lt byte h).1

theorem toNat_lt (h : bytes.contains byte = true) : byte.toNat < 128 :=
  (bytes.ne_zero_and_toNat_lt byte h).2

end ByteClass

/-- The byte behind the current one. -/
def peek (scanner : Scanner) : UInt8 := scanner.input[scanner.readPosition]?.getD 0

def advance (scanner : Scanner) : Scanner :=
  { scanner with
    position := min scanner.readPosition scanner.input.length
    readPosition := min (scanner.readPosition + 1) (scanner.input.length + 1)
    current := scanner.peek }

def ofBytes (bytes : List UInt8) : Scanner := advance ⟨bytes, 0, 0, 0⟩

def ofString (source : String) : Scanner := ofBytes (Text.bytes source)

/-- What can still be read: the bytes from the next one on count twice, so that to
advance from any byte but NUL leaves less. -/
def weight (scanner : Scanner) : Nat :=
  2 * (scanner.input.length + 1 - scanner.readPosition) + if scanner.current = 0 then 0 else 1

/-- Before the end of the input the index moves on. At the end it does not, but the byte that
is seen becomes a NUL. -/
theorem weight_advance_lt {scanner : Scanner} (h : scanner.current ≠ 0) :
    scanner.advance.weight < scanner.weight := by
  have hRead : scanner.advance.readPosition =
      min (scanner.readPosition + 1) (scanner.input.length + 1) := rfl
  have hInput : scanner.advance.input = scanner.input := rfl
  rw [weight, weight, if_neg h, hInput, hRead]
  by_cases hEnd : scanner.readPosition ≤ scanner.input.length
  · split <;> omega
  · have hCurrent : scanner.advance.current = 0 := by
      change (scanner.input[scanner.readPosition]?).getD 0 = 0
      rw [List.getElem?_eq_none (by omega), Option.getD_none]
    rw [if_pos hCurrent]
    omega

/-- Move past a run of bytes of one class. -/
def skip (bytes : ByteClass) (scanner : Scanner) : Scanner :=
  if bytes.contains scanner.current then skip bytes scanner.advance else scanner
termination_by scanner.weight
decreasing_by exact weight_advance_lt (ByteClass.ne_zero (by assumption))

/-- The bytes of the input that a run of one class is read from. -/
def slice (bytes : ByteClass) (scanner : Scanner) : List UInt8 :=
  (scanner.input.drop scanner.position).take
    ((scanner.skip bytes).position - scanner.position)

/-- The text of a run of bytes of one class. What is not UTF-8 would be replaced. -/
def run (bytes : ByteClass) (scanner : Scanner) : String × Scanner :=
  let last := scanner.skip bytes
  let taken := (scanner.input.drop scanner.position).take (last.position - scanner.position)
  ((Text.ofBytes? taken).getD "\ufffd", last)

/-- The token of the current byte alone. -/
def single (kind : Kind) (scanner : Scanner) : Token × Scanner :=
  (⟨kind, Text.ofCodePoints [scanner.current]⟩, scanner.advance)

/-- The symbol of the current byte, or the longer one that it spells with a directly
following `=`. -/
def symbol (symbol : Symbol) (scanner : Scanner) : Token × Scanner :=
  match symbol.followedByEquals? with
  | none => scanner.single (.symbol symbol)
  | some longer =>
      if scanner.peek ≠ 0x3d then scanner.single (.symbol symbol)
      else
        (⟨.symbol longer, Text.ofCodePoints [scanner.current, scanner.advance.current]⟩,
          scanner.advance.advance)

/-- Deliver the token that starts at the current byte. -/
def start (scanner : Scanner) : Token × Scanner :=
  match Symbol.ofChar? (Char.ofUInt8 scanner.current) with
  | some symbol => scanner.symbol symbol
  | none =>
      if scanner.current = 0 then (.eof, scanner.advance)
      else if Byte.isLetter scanner.current then
        (.ofWord (scanner.run .letters).1, (scanner.run .letters).2)
      else if Byte.isDigit scanner.current then
        (⟨.int, (scanner.run .digits).1⟩, (scanner.run .digits).2)
      else scanner.single .illegal

def next (scanner : Scanner) : Token × Scanner := (scanner.skip .blanks).start

theorem weight_skip_le (bytes : ByteClass) (scanner : Scanner) :
    (scanner.skip bytes).weight ≤ scanner.weight := by
  fun_induction skip bytes scanner with
  | case1 scanner hMore ih => exact ih.trans (weight_advance_lt (ByteClass.ne_zero hMore)).le
  | case2 scanner hEnd => exact le_rfl

theorem weight_skip_lt {bytes : ByteClass} {scanner : Scanner}
    (h : bytes.contains scanner.current = true) :
    (scanner.skip bytes).weight < scanner.weight := by
  rw [skip, if_pos h]
  exact (weight_skip_le bytes scanner.advance).trans_lt (weight_advance_lt (ByteClass.ne_zero h))

theorem weight_symbol_lt {scanner : Scanner} (h : scanner.current ≠ 0) (symbol : Symbol) :
    (scanner.symbol symbol).2.weight < scanner.weight := by
  have hOne := weight_advance_lt h
  unfold Scanner.symbol
  split
  · exact hOne
  · split
    · exact hOne
    · next hPeek =>
        have hSecond : scanner.advance.current ≠ 0 := by
          rw [show scanner.advance.current = 0x3d from of_not_not hPeek]
          decide
        exact (weight_advance_lt hSecond).trans hOne

/-- Every token but an end of input takes a byte that is no NUL. -/
theorem weight_start_lt {scanner : Scanner} (h : scanner.start.1.kind ≠ .eof) :
    scanner.start.2.weight < scanner.weight := by
  unfold start at h ⊢
  split
  · next symbol hSymbol => exact weight_symbol_lt (Byte.of_ofChar? hSymbol).1 symbol
  · next hSymbol =>
      simp only [hSymbol] at h
      split_ifs at h ⊢ with hNul hLetter hDigit
      · exact absurd rfl h
      · exact weight_skip_lt hLetter
      · exact weight_skip_lt hDigit
      · exact weight_advance_lt hNul

/-- Deliver tokens up to and including the first end of input. -/
def tokenize (scanner : Scanner) : List Token × Scanner :=
  if scanner.next.1.kind = .eof then ([scanner.next.1], scanner.next.2)
  else (scanner.next.1 :: (tokenize scanner.next.2).1, (tokenize scanner.next.2).2)
termination_by scanner.weight
decreasing_by
  all_goals exact (weight_start_lt (by assumption)).trans_le (weight_skip_le .blanks scanner)

/-- The bytes behind a scanner, and those ahead of it from the current one on. -/
structure Between (scanner : Scanner) (behind ahead : List UInt8) : Prop where
  input_eq : scanner.input = behind ++ ahead
  position_eq : scanner.position = behind.length
  readPosition_eq : scanner.readPosition = behind.length + 1
  current_eq : scanner.current = ahead.headD 0

variable {scanner : Scanner} {behind ahead : List UInt8}

/-- A new scanner has read its first byte already and has none behind it. -/
theorem between_ofBytes (bytes : List UInt8) : (ofBytes bytes).Between [] bytes where
  input_eq := rfl
  position_eq := Nat.zero_min _
  readPosition_eq := Nat.min_eq_left (by simp)
  current_eq := by cases bytes <;> rfl

theorem Between.peek_eq (h : scanner.Between behind ahead) :
    scanner.peek = ahead.tail.headD 0 := by
  rw [peek, h.input_eq, h.readPosition_eq, List.getElem?_append_right (Nat.le_succ _)]
  rcases ahead with _ | ⟨first, _ | ⟨second, rest⟩⟩ <;> simp

/-- There is no way on from the end of the input. -/
theorem Between.advance (h : scanner.Between behind ahead) :
    scanner.advance.Between (behind ++ ahead.take 1) ahead.tail where
  input_eq := by
    rw [List.append_assoc, ← List.drop_one, List.take_append_drop]
    exact h.input_eq
  position_eq := by
    change min scanner.readPosition scanner.input.length = _
    rw [h.readPosition_eq, h.input_eq]
    cases ahead <;> simp
  readPosition_eq := by
    change min (scanner.readPosition + 1) (scanner.input.length + 1) = _
    rw [h.readPosition_eq, h.input_eq]
    cases ahead <;> simp
  current_eq := h.peek_eq

/-- To go by index until a byte of another class is to drop the bytes of the class, and
the NUL at the end stops both. -/
theorem Between.skip (h : scanner.Between behind ahead) (bytes : ByteClass) :
    (scanner.skip bytes).Between (behind ++ ahead.takeWhile bytes.contains)
      (ahead.dropWhile bytes.contains) := by
  induction ahead generalizing scanner behind with
  | nil =>
      have hCurrent : scanner.current = 0 := h.current_eq
      rw [Scanner.skip, if_neg fun hMore => ByteClass.ne_zero hMore hCurrent]
      simpa using h
  | cons first rest ih =>
      have hCurrent : scanner.current = first := h.current_eq
      rw [Scanner.skip, hCurrent]
      by_cases hFirst : bytes.contains first = true
      · have hRest := ih h.advance
        rw [if_pos hFirst, List.takeWhile_cons_of_pos hFirst, List.dropWhile_cons_of_pos hFirst]
        simpa using hRest
      · rw [if_neg hFirst, List.takeWhile_cons_of_neg hFirst, List.dropWhile_cons_of_neg hFirst,
          List.append_nil]
        exact h

/-- What is delivered with these bytes behind is what the lexer reads at the front of the
bytes ahead. -/
structure Reads (behind : List UInt8) (lexeme : Lexeme) (delivered : Token × Scanner) : Prop where
  token_eq : delivered.1 = lexeme.token
  between : delivered.2.Between (behind ++ lexeme.text) lexeme.rest

/-- The bytes that are cut out by two indices are those that were skipped, no more and no
fewer. -/
theorem Between.slice_eq (h : scanner.Between behind ahead) (bytes : ByteClass) :
    scanner.slice bytes = ahead.takeWhile bytes.contains := by
  have hAhead : scanner.input.drop scanner.position = ahead := by
    rw [h.input_eq, h.position_eq, List.drop_left]
  have hLength : (scanner.skip bytes).position - scanner.position =
      (ahead.takeWhile bytes.contains).length := by
    rw [(h.skip bytes).position_eq, h.position_eq, List.length_append, Nat.add_sub_cancel_left]
  rw [slice, hAhead, hLength]
  exact (List.prefix_iff_eq_take.mp (List.takeWhile_prefix _)).symm

theorem Between.toNat_lt_of_mem_slice (h : scanner.Between behind ahead) {bytes : ByteClass}
    {byte : UInt8} (hByte : byte ∈ scanner.slice bytes) : byte.toNat < 128 := by
  rw [h.slice_eq] at hByte
  exact ByteClass.toNat_lt (List.mem_takeWhile_imp hByte)

/-- One character for each byte is also what the bytes are in UTF-8, since they are ASCII. -/
theorem Between.run_fst (h : scanner.Between behind ahead) (bytes : ByteClass) :
    (scanner.run bytes).1 = Text.ofCodePoints (scanner.slice bytes) := by
  have hText := Text.ofBytes?_bytes (Text.ofCodePoints (scanner.slice bytes))
  rw [Text.bytes_ofCodePoints fun _ => h.toNat_lt_of_mem_slice] at hText
  change (Text.ofBytes? (scanner.slice bytes)).getD "\ufffd" = _
  rw [hText, Option.getD_some]

/-- The first byte is known to be of the class, so that the run is not empty. -/
theorem Between.reads_run {first : UInt8} {rest : List UInt8}
    (h : scanner.Between behind (first :: rest)) (bytes : ByteClass)
    (hFirst : bytes.contains first = true) (make : String → Token) :
    Reads behind (Lexeme.run bytes.contains make first rest)
      (make (scanner.run bytes).1, (scanner.run bytes).2) := by
  have hText := h.run_fst bytes
  have hSkip := h.skip bytes
  rw [h.slice_eq] at hText
  rw [List.takeWhile_cons_of_pos hFirst] at hText hSkip
  rw [List.dropWhile_cons_of_pos hFirst] at hSkip
  exact ⟨congrArg make hText, hSkip⟩

/-- An illegal byte and a symbol of one character are both cut out as one byte. -/
theorem Between.reads_single {first : UInt8} {rest : List UInt8}
    (h : scanner.Between behind (first :: rest)) {kind : Kind} {literal : String}
    (hLiteral : Text.ofCodePoints [first] = literal) :
    Reads behind ⟨[], [first], ⟨kind, literal⟩, rest⟩ (scanner.single kind) := by
  have hCurrent : scanner.current = first := h.current_eq
  refine ⟨?_, h.advance⟩
  rw [single, hCurrent, hLiteral]

theorem Between.reads_longer {first : UInt8} {rest : List UInt8} {symbol longer : Symbol}
    (h : scanner.Between behind (first :: 0x3d :: rest))
    (hFirst : Symbol.ofChar? (Char.ofUInt8 first) = some symbol)
    (hLonger : symbol.followedByEquals? = some longer) :
    Reads behind ⟨[], [first, 0x3d], .ofSymbol longer, rest⟩
      (⟨.symbol longer, Text.ofCodePoints [scanner.current, scanner.advance.current]⟩,
        scanner.advance.advance) := by
  have hCurrent : scanner.current = first := h.current_eq
  have hSecond : scanner.advance.current = 0x3d := h.peek_eq
  have hText : Text.ofCodePoints [first, 0x3d] = longer.spelling := by
    rw [← longer.ofCodePoints_bytes_spelling,
      Symbol.bytes_spelling_of_followedByEquals? hLonger, Byte.bytes_spelling_of_ofChar? hFirst]
    rfl
  have hLater := h.advance.advance
  rw [List.append_assoc] at hLater
  rw [hCurrent, hSecond, hText]
  exact ⟨rfl, hLater⟩

/-- The NUL that is seen behind the last byte is not mistaken for an equals sign. -/
theorem Between.reads_symbol {first : UInt8} {rest : List UInt8} {symbol : Symbol}
    (h : scanner.Between behind (first :: rest))
    (hFirst : Symbol.ofChar? (Char.ofUInt8 first) = some symbol) :
    Reads behind (Lexeme.ofSymbol symbol first rest) (scanner.symbol symbol) := by
  have hPeek : scanner.peek = rest.headD 0 := h.peek_eq
  have hAlone (hRest : symbol = .assign ∨ symbol = .bang → rest.head? ≠ some 0x3d) :
      Reads behind (Lexeme.ofSymbol symbol first rest) (scanner.single (.symbol symbol)) := by
    rw [Lexeme.ofSymbol_alone first (Token.extendedBy_ofSymbol hRest)]
    refine h.reads_single ?_
    rw [← Byte.bytes_spelling_of_ofChar? hFirst, symbol.ofCodePoints_bytes_spelling]
  unfold Scanner.symbol
  cases hLonger : symbol.followedByEquals? with
  | none =>
      apply hAlone
      rintro (rfl | rfl) <;> cases hLonger
  | some longer =>
      dsimp only
      split
      · next hOther =>
          refine hAlone fun _ hHead => hOther ?_
          rw [hPeek, List.headD_eq_head?_getD, hHead, Option.getD_some]
      · next hEquals =>
          obtain ⟨later, rfl⟩ : ∃ later, rest = 0x3d :: later := by
            rw [hPeek] at hEquals
            cases rest with
            | nil => exact absurd (by decide) hEquals
            | cons second later => exact ⟨later, congrArg (· :: later) (of_not_not hEquals)⟩
          rw [Lexeme.ofSymbol_equals first hLonger]
          exact h.reads_longer hFirst hLonger

/-- Symbols are tried first here and last by the lexer, which makes no difference, as
their bytes are in no other class. -/
theorem Between.reads_start {first : UInt8} {rest : List UInt8}
    (h : scanner.Between behind (first :: rest)) :
    Reads behind (Lexeme.start first rest) scanner.start := by
  have hCurrent : scanner.current = first := h.current_eq
  unfold Scanner.start
  rw [hCurrent]
  cases hSymbol : Symbol.ofChar? (Char.ofUInt8 first) with
  | some symbol =>
      rw [Lexeme.start_of_ofChar? hSymbol]
      exact h.reads_symbol hSymbol
  | none =>
      simp only [Lexeme.start, hSymbol]
      split_ifs with hNul hLetter hDigit
      · exact ⟨rfl, h.advance⟩
      · exact h.reads_run .letters hLetter .ofWord
      · exact h.reads_run .digits hDigit (⟨.int, ·⟩)
      · exact h.reads_single rfl

/-- At the end of the input there is one more end of input. -/
theorem Between.start_of_nil (h : scanner.Between behind []) :
    scanner.start.1 = .eof ∧ scanner.start.2.Between behind [] := by
  have hCurrent : scanner.current = 0 := h.current_eq
  have hNone : Symbol.ofChar? (Char.ofUInt8 0) = none := rfl
  have hStart : scanner.start = (.eof, scanner.advance) := by
    rw [Scanner.start, hCurrent, hNone]
    rfl
  have hAdvance := h.advance
  rw [List.take_nil, List.append_nil] at hAdvance
  rw [hStart]
  exact ⟨rfl, hAdvance⟩

/-- The scanner stands where the lexer does. -/
def Tracks (scanner : Scanner) (lexer : Lexer) : Prop :=
  ∃ behind, scanner.Between behind lexer.ahead ∧ lexer.position = behind.length

variable {lexer : Lexer}

theorem tracks_ofString (source : String) : (ofString source).Tracks (.ofString source) :=
  ⟨[], between_ofBytes (Text.bytes source), rfl⟩

/-- With no bytes ahead the scanner sees a NUL, and delivers the end of input that the
lexer delivers. -/
theorem Tracks.next (h : scanner.Tracks lexer) :
    scanner.next.1 = lexer.next.1 ∧ scanner.next.2.Tracks lexer.next.2 := by
  obtain ⟨behind, hBetween, hPosition⟩ := h
  have hSkip : (scanner.skip .blanks).Between (behind ++ lexer.ahead.takeWhile Byte.isBlank)
      (lexer.ahead.dropWhile Byte.isBlank) := hBetween.skip .blanks
  unfold Scanner.next Lexer.next Lexeme.read?
  cases hRest : lexer.ahead.dropWhile Byte.isBlank with
  | nil =>
      have hAll : lexer.ahead.takeWhile Byte.isBlank = lexer.ahead :=
        List.takeWhile_eq_self_iff.mpr (List.dropWhile_eq_nil_iff.mp hRest)
      rw [hRest, hAll] at hSkip
      obtain ⟨hToken, hEnd⟩ := hSkip.start_of_nil
      exact ⟨hToken, _, hEnd, by rw [List.length_append, hPosition]⟩
  | cons first rest =>
      rw [hRest] at hSkip
      obtain ⟨hToken, hLater⟩ := hSkip.reads_start
      exact ⟨hToken, _, hLater, by simp only [List.length_append, hPosition]⟩

/-- Both recursions stop at the same token, the first end of input. -/
theorem Tracks.tokenize (h : scanner.Tracks lexer) :
    scanner.tokenize.1 = lexer.tokenize.1 ∧ scanner.tokenize.2.Tracks lexer.tokenize.2 := by
  induction lexer using Lexer.tokenize.induct generalizing scanner with
  | case1 lexer hEof =>
      obtain ⟨hToken, hLater⟩ := h.next
      rw [Scanner.tokenize, Lexer.tokenize, hToken, if_pos hEof, if_pos hEof]
      exact ⟨rfl, hLater⟩
  | case2 lexer hContent ih =>
      obtain ⟨hToken, hLater⟩ := h.next
      obtain ⟨hTokens, hLast⟩ := ih hLater
      rw [Scanner.tokenize, Lexer.tokenize, hToken, if_neg hContent, if_neg hContent]
      exact ⟨congrArg (lexer.next.1 :: ·) hTokens, hLast⟩

end Scanner

end LetLang
