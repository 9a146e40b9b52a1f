import LetLang.Proofs.Token.Relexing
import LetLang.Proofs.Token.Stream

/-! Divisions. The bytes of a source before its first NUL divide into the texts
of tokens and the blanks around them, in one way only as far as the tokens are
concerned, if each token is as long as the bytes behind it allow. Tokenizing
delivers the tokens of that division. -/
namespace LetLang

namespace Byte

/-- The byte that a symbol is recognised by is all of its spelling. -/
theorem bytes_spelling_of_ofChar? {byte : UInt8} {symbol : Symbol}
    (h : Symbol.ofChar? (Char.ofUInt8 byte) = some symbol) :
    Text.bytes symbol.spelling = [byte] := by
  have hAll : (Symbol.ofChar? (Char.ofUInt8 byte)).all
      (fun symbol => Text.bytes symbol.spelling == [byte]) = true := by
    clear h
    obtain ⟨⟨value⟩⟩ := byte
    revert value
    decide +kernel
  rw [h] at hAll
  exact eq_of_beq hAll

theorem ofUInt8_eq_equals_iff (byte : UInt8) : Char.ofUInt8 byte = '=' ↔ byte = 0x3d := by
  obtain ⟨⟨value⟩⟩ := byte
  revert value
  decide +kernel

end Byte

/-- All spellings are ASCII. -/
theorem Symbol.ofCodePoints_bytes_spelling (symbol : Symbol) :
    Text.ofCodePoints (Text.bytes symbol.spelling) = symbol.spelling := by
  cases symbol <;> decide

/-- The longer symbols are spelled as they are read: a shorter one and an equals sign. -/
theorem Symbol.bytes_spelling_of_followedByEquals? {symbol longer : Symbol}
    (h : symbol.followedByEquals? = some longer) :
    Text.bytes longer.spelling = Text.bytes symbol.spelling ++ [0x3d] := by
  cases symbol <;> cases h <;> decide

namespace Token

/-- A token is read from a text in front of some rest: the text is the whole
spelling, run or byte that the token stands for, and the rest does not start
with a byte that would make it longer. -/
inductive ReadFrom : Token → (text rest : List UInt8) → Prop where
  | symbol {symbol : Symbol} {rest : List UInt8}
      (hRest : symbol = .assign ∨ symbol = .bang → rest.head? ≠ some 0x3d) :
      ReadFrom (.ofSymbol symbol) (Text.bytes symbol.spelling) rest
  | numeral {text rest : List UInt8} (hText : text ≠ [])
      (hDigits : ∀ byte ∈ text, Byte.isDigit byte = true)
      (hRest : ∀ byte ∈ rest.head?, Byte.isDigit byte = false) :
      ReadFrom ⟨.int, Text.ofCodePoints text⟩ text rest
  | word {text rest : List UInt8} (hText : text ≠ [])
      (hLetters : ∀ byte ∈ text, Byte.isLetter byte = true)
      (hRest : ∀ byte ∈ rest.head?, Byte.isLetter byte = false) :
      ReadFrom (.ofWord (Text.ofCodePoints text)) text rest
  | illegal {byte : UInt8} {rest : List UInt8} (hByte : Byte.isStray byte = true) :
      ReadFrom ⟨.illegal, Text.ofCodePoints [byte]⟩ [byte] rest

/-- Only `=` and `!` have a longer symbol, and only an equals sign completes it. -/
theorem extendedBy_ofSymbol {symbol : Symbol} {rest : List UInt8}
    (hRest : symbol = .assign ∨ symbol = .bang → rest.head? ≠ some 0x3d) :
    ∀ byte ∈ rest.head?, (ofSymbol symbol).extendedBy byte = false := by
  intro byte hByte
  have hEquals : symbol = .assign ∨ symbol = .bang → Char.ofUInt8 byte ≠ '=' := by
    intro hSymbol hChar
    rw [(Byte.ofUInt8_eq_equals_iff byte).mp hChar] at hByte
    exact hRest hSymbol hByte
  cases symbol <;> simp_all [extendedBy, ofSymbol, Symbol.followedByEquals?]

/-- The literal of a token is its text with one character for each byte. -/
theorem ReadFrom.literal_eq {token : Token} {text rest : List UInt8}
    (h : token.ReadFrom text rest) : token.literal = Text.ofCodePoints text := by
  cases h with
  | symbol hRest => exact (Symbol.ofCodePoints_bytes_spelling _).symm
  | _ => rfl

/-- No token has a blank in it, so the blanks of a division are all outside its tokens. -/
theorem ReadFrom.isBlank_of_mem {token : Token} {text rest : List UInt8}
    (h : token.ReadFrom text rest) : ∀ byte ∈ text, Byte.isBlank byte = false := by
  cases h with
  | symbol hRest =>
      rename_i symbol
      have hAll : (Text.bytes symbol.spelling).all (fun byte => !Byte.isBlank byte) = true := by
        cases symbol <;> decide
      intro byte hMem
      simpa using List.all_eq_true.mp hAll byte hMem
  | numeral hText hDigits hRest => exact fun byte hByte => (Byte.of_isDigit (hDigits byte hByte)).2.1
  | word hText hLetters hRest => exact fun byte hByte => (Byte.of_isLetter (hLetters byte hByte)).2
  | illegal hByte =>
      intro byte hMem
      obtain rfl := List.mem_singleton.mp hMem
      simp only [Byte.isStray, Bool.and_eq_true, Bool.not_eq_true'] at hByte
      exact hByte.1.1.1.2

end Token

namespace Lexeme

/-- What a token is read from is where the lexer finds it, with nothing behind
it taken along. -/
theorem start_of_readFrom {token : Token} {text rest : List UInt8}
    (h : token.ReadFrom text rest) :
    ∃ first tail, text = first :: tail ∧
      start first (tail ++ rest) = ⟨[], first :: tail, token, rest⟩ := by
  cases h with
  | @symbol symbol _ hRest =>
      rcases symbol.spelling_bytes with
        ⟨first, hBytes, hFirst⟩ | ⟨shorter, first, hBytes, hFirst, hLonger⟩
      · refine ⟨first, [], hBytes, ?_⟩
        rw [List.nil_append, start_of_ofChar? hFirst,
          ofSymbol_alone first (Token.extendedBy_ofSymbol hRest)]
      · refine ⟨first, [0x3d], hBytes, ?_⟩
        rw [List.singleton_append, start_of_ofChar? hFirst, ofSymbol_equals first hLonger]
  | numeral hText hDigits hRest =>
      obtain ⟨first, tail, rfl⟩ := List.exists_cons_of_ne_nil hText
      have hFirst := hDigits first List.mem_cons_self
      obtain ⟨hNul, hBlank, hLetter⟩ := Byte.of_isDigit hFirst
      refine ⟨first, tail, rfl, ?_⟩
      rw [start, if_neg hNul, if_neg (by simp [hLetter]), if_pos hFirst]
      exact run_of_all (⟨.int, ·⟩) first
        (fun byte hByte => hDigits byte (List.mem_cons_of_mem _ hByte)) hRest
  | word hText hLetters hRest =>
      obtain ⟨first, tail, rfl⟩ := List.exists_cons_of_ne_nil hText
      have hFirst := hLetters first List.mem_cons_self
      refine ⟨first, tail, rfl, ?_⟩
      rw [start, if_neg (Byte.of_isLetter hFirst).1, if_pos hFirst]
      exact run_of_all .ofWord first
        (fun byte hByte => hLetters byte (List.mem_cons_of_mem _ hByte)) hRest
  | @illegal byte _ hByte =>
      refine ⟨byte, [], rfl, ?_⟩
      simp only [Byte.isStray, Bool.and_eq_true, Bool.not_eq_true', bne_iff_ne,
        Option.isNone_iff_eq_none] at hByte
      obtain ⟨⟨⟨⟨hNul, -⟩, hLetter⟩, hDigit⟩, hSymbol⟩ := hByte
      simp only [start, hNul, hLetter, hDigit, hSymbol, if_false, Bool.false_eq_true,
        List.nil_append]

/-- The shorter symbol is read only where the longer one is not there. -/
theorem readFrom_ofSymbol {symbol : Symbol} {first : UInt8}
    (hFirst : Symbol.ofChar? (Char.ofUInt8 first) = some symbol) (rest : List UInt8) :
    (ofSymbol symbol first rest).token.ReadFrom (ofSymbol symbol first rest).text
      (ofSymbol symbol first rest).rest := by
  have hBytes := Byte.bytes_spelling_of_ofChar? hFirst
  have hAlone {later : List UInt8}
      (hRest : symbol = .assign ∨ symbol = .bang → later.head? ≠ some 0x3d) :
      (Token.ofSymbol symbol).ReadFrom [first] later := hBytes ▸ .symbol hRest
  cases rest with
  | nil => exact hAlone fun _ => by simp [ofSymbol]
  | cons second rest =>
      simp only [ofSymbol]
      split
      · next hNone =>
          apply hAlone
          rintro (rfl | rfl) <;> cases hNone
      · next longer hLonger =>
          split
          · next hEquals =>
              have hText : Text.bytes longer.spelling = [first, second] := by
                rw [Symbol.bytes_spelling_of_followedByEquals? hLonger, hBytes,
                  (Byte.ofUInt8_eq_equals_iff second).mp hEquals]
                rfl
              rw [← hText]
              apply Token.ReadFrom.symbol
              rintro (rfl | rfl) <;> cases symbol <;> cases hLonger
          · next hOther =>
              apply hAlone
              intro hSymbol hHead
              exact hOther ((Byte.ofUInt8_eq_equals_iff second).mpr (Option.some.inj hHead))

/-- Nothing of another class gets into a run. -/
theorem mem_run_text {inClass : UInt8 → Bool} {first : UInt8} (hFirst : inClass first = true)
    (token : String → Token) (rest : List UInt8) :
    ∀ byte ∈ (run inClass token first rest).text, inClass byte = true := by
  intro byte hByte
  rcases List.mem_cons.mp hByte with rfl | hByte
  · exact hFirst
  · exact List.mem_takeWhile_imp hByte

/-- A run stops only at a byte of another class or at the end. -/
theorem head?_run_rest (inClass : UInt8 → Bool) (token : String → Token) (first : UInt8)
    (rest : List UInt8) :
    ∀ byte ∈ (run inClass token first rest).rest.head?, inClass byte = false := by
  intro byte hByte
  have hHead := List.head?_dropWhile_not inClass rest
  rw [show (rest.dropWhile inClass).head? = some byte from hByte] at hHead
  simpa using hHead

/-- What starts at a byte other than a blank or NUL is read as far as the bytes
behind it allow. -/
theorem readFrom_start {first : UInt8} (hNul : first ≠ 0) (hBlank : Byte.isBlank first = false)
    (rest : List UInt8) :
    (start first rest).token.ReadFrom (start first rest).text (start first rest).rest := by
  rw [start, if_neg hNul]
  split_ifs with hLetter hDigit
  · exact .word (List.cons_ne_nil _ _) (mem_run_text hLetter .ofWord rest)
      (head?_run_rest _ .ofWord first rest)
  · exact .numeral (List.cons_ne_nil _ _) (mem_run_text hDigit (⟨.int, ·⟩) rest)
      (head?_run_rest _ (⟨.int, ·⟩) first rest)
  · split
    · next symbol hSymbol => exact readFrom_ofSymbol hSymbol rest
    · next hSymbol => exact .illegal (by simp [Byte.isStray, *])

/-- A lexeme has blanks before it and a token in it, read as far as what is behind allows.
With a NUL it could be an end of input. -/
theorem readFrom_read? {bytes : List UInt8} {lexeme : Lexeme} (hNul : 0 ∉ bytes)
    (h : read? bytes = some lexeme) :
    (∀ byte ∈ lexeme.gap, Byte.isBlank byte = true) ∧
      lexeme.token.ReadFrom lexeme.text lexeme.rest := by
  unfold read? at h
  split at h
  · simp at h
  · next first rest hRest =>
      obtain rfl := Option.some.inj h
      have hBlank := List.head?_dropWhile_not Byte.isBlank bytes
      rw [hRest] at hBlank
      have hFirst : first ≠ 0 := by
        rintro rfl
        apply hNul
        apply (List.dropWhile_sublist (p := Byte.isBlank)).mem
        rw [hRest]
        exact List.mem_cons_self
      exact ⟨fun byte hByte => List.mem_takeWhile_imp hByte,
        readFrom_start hFirst (by simpa using hBlank) rest⟩

end Lexeme

namespace Lexer

/-- The bytes before the first NUL, or all of them if there is none. -/
def beforeNul (bytes : List UInt8) : List UInt8 := bytes.takeWhile (· != 0)

/-- Bytes put together from blanks and the texts of some tokens, in order. -/
inductive Division : List UInt8 → List Token → Prop where
  | blanks {gap : List UInt8} (hGap : ∀ byte ∈ gap, Byte.isBlank byte = true) : Division gap []
  | token {gap text rest : List UInt8} {token : Token} {tokens : List Token}
      (hGap : ∀ byte ∈ gap, Byte.isBlank byte = true) (hToken : token.ReadFrom text rest)
      (hRest : Division rest tokens) : Division (gap ++ text ++ rest) (token :: tokens)

/-- The lexer finds the tokens of every division, so there is at most one list of them. -/
theorem Division.stream_eq {bytes : List UInt8} {tokens : List Token}
    (h : Division bytes tokens) : stream bytes = tokens := by
  induction h with
  | blanks hGap => exact stream_of_dropWhile_eq_nil (List.dropWhile_eq_nil_iff.mpr hGap)
  | @token gap text rest token tokens hGap hToken hRest ih =>
      obtain ⟨first, tail, rfl, hStart⟩ := Lexeme.start_of_readFrom hToken
      have hBlank := hToken.isBlank_of_mem first List.mem_cons_self
      rw [List.append_assoc, stream_blanks_append (List.all_eq_true.mpr hGap), List.cons_append,
        stream_cons hBlank, hStart, ih]

/-- What the lexer delivers of bytes without a NUL is a division of them. Nothing but blanks
is left out. -/
theorem division_stream {bytes : List UInt8} (hNul : 0 ∉ bytes) :
    Division bytes (stream bytes) := by
  fun_induction stream bytes with
  | case1 bytes hRead => exact .blanks ((Lexeme.read?_eq_none_iff bytes).mp hRead)
  | case2 bytes lexeme hRead ih =>
      have hBytes := Lexeme.gap_append_text_append_rest hRead
      have hRest : 0 ∉ lexeme.rest := by
        intro hMem
        rw [← hBytes] at hNul
        exact hNul (List.mem_append_right _ hMem)
      have hLexeme := Lexeme.readFrom_read? hNul hRead
      rw [← hBytes]
      exact .token hLexeme.1 hLexeme.2 (ih hRest)

/-- No byte but blanks is lost between the texts of a division. -/
theorem Division.flatMap_literal {bytes : List UInt8} {tokens : List Token}
    (h : Division bytes tokens) :
    tokens.flatMap (·.literal.toList) =
      (bytes.filter fun byte => !Byte.isBlank byte).map Char.ofUInt8 := by
  induction h with
  | blanks hGap => simpa using hGap
  | @token gap text rest token tokens hGap hToken hRest ih =>
      have hNone : gap.filter (fun byte => !Byte.isBlank byte) = [] :=
        List.filter_eq_nil_iff.mpr fun byte hByte => by simp [hGap byte hByte]
      have hAll : text.filter (fun byte => !Byte.isBlank byte) = text :=
        List.filter_eq_self.mpr fun byte hByte => by simp [hToken.isBlank_of_mem byte hByte]
      rw [List.flatMap_cons, hToken.literal_eq, Text.toList_ofCodePoints, ih, List.filter_append,
        List.filter_append, hNone, hAll, List.nil_append, List.map_append]

theorem zero_notMem_beforeNul (bytes : List UInt8) : 0 ∉ beforeNul bytes := by
  intro hMem
  simpa using List.mem_takeWhile_imp hMem

/-- Only what stands before the first NUL matters up to the first end of input. -/
theorem takeWhile_isContent_stream (bytes : List UInt8) :
    (stream bytes).takeWhile isContent = stream (beforeNul bytes) := by
  have hContent : ∀ token ∈ stream (beforeNul bytes), isContent token = true :=
    fun _ => isContent_of_mem_stream (zero_notMem_beforeNul bytes)
  cases hRest : bytes.dropWhile (· != 0) with
  | nil =>
      have hAll : beforeNul bytes = bytes :=
        List.takeWhile_eq_self_iff.mpr (List.dropWhile_eq_nil_iff.mp hRest)
      rw [hAll] at hContent ⊢
      exact List.takeWhile_eq_self_iff.mpr hContent
  | cons byte rest =>
      obtain rfl : byte = 0 := by
        have hHead := List.head?_dropWhile_not (· != 0) bytes
        rw [hRest] at hHead
        simpa using hHead
      have hBytes : bytes = beforeNul bytes ++ 0 :: rest := by
        rw [← hRest]
        exact (List.takeWhile_append_dropWhile).symm
      have hStream := stream_append_zero (beforeNul bytes) rest
      rw [← hBytes] at hStream
      rw [hStream]
      refine takeWhile_isContent_append hContent ?_
      rintro _ ⟨⟩
      rfl

/-- Tokenizing delivers the tokens of the bytes before the first NUL. Those behind it have
no part in that. -/
theorem tokenize_ofString (source : String) :
    (ofString source).tokenize.1 = stream (beforeNul (Text.bytes source)) ++ [.eof] := by
  rw [tokenize_fst]
  exact congrArg (· ++ [.eof]) (takeWhile_isContent_stream (Text.bytes source))

/-- Without a NUL character there is no NUL byte, so all bytes count. -/
theorem beforeNul_bytes {text : String} (h : '\x00' ∉ text.toList) :
    beforeNul (Text.bytes text) = Text.bytes text := by
  refine List.takeWhile_eq_self_iff.mpr fun byte hByte => ?_
  rw [bne_iff_ne]
  rintro rfl
  exact h ((Text.zero_mem_bytes_iff text).mp hByte)

/-- Tokenizing a source delivers some tokens and an end of input if and only if
the bytes before its first NUL divide into them. There is exactly one such list
of tokens, and their literals together are all of those bytes but the blanks. -/
theorem tokenize_eq_iff_division (source : String) :
    (∀ tokens, (ofString source).tokenize.1 = tokens ++ [.eof] ↔
      Division (beforeNul (Text.bytes source)) tokens) ∧
    (∃! tokens, Division (beforeNul (Text.bytes source)) tokens) ∧
    (ofString source).tokenize.1.flatMap (·.literal.toList) =
      ((beforeNul (Text.bytes source)).filter fun byte => !Byte.isBlank byte).map
        Char.ofUInt8 := by
  have hTokenize := tokenize_ofString source
  have hDivision := division_stream (zero_notMem_beforeNul (Text.bytes source))
  refine ⟨fun tokens => ⟨fun hTokens => ?_, fun hTokens => ?_⟩, ⟨_, hDivision, ?_⟩, ?_⟩
  · rw [hTokenize] at hTokens
    rw [← List.append_cancel_right hTokens]
    exact hDivision
  · rw [hTokenize, hTokens.stream_eq]
  · exact fun tokens hTokens => hTokens.stream_eq.symm
  · rw [hTokenize, List.flatMap_append, hDivision.flatMap_literal]
    exact List.append_nil _

end Lexer

end LetLang
