import LetLang.Proofs.Session.Writing

/-! Listings. The tokens of a line are listed one a line and nothing in them is quoted. A
listing is the listing of one list of tokens all the same: no literal has a line feed in
it, and in the line of a token the first space stands behind the name of its kind. -/
namespace LetLang

/-- Names of kinds are words in capitals or spellings, so there is no space in them. -/
theorem Kind.isGraphic_name (kind : Kind) : Text.IsGraphic kind.name := by
  have hAll : ∀ kind ∈ Kind.all, Text.IsGraphic kind.name := by decide
  exact hAll kind kind.mem_all

namespace Token

/-- The characters of a listed token, up to the first space and behind it. -/
theorem toList_display (token : Token) :
    token.display.toList = ("\x7bType:".toList ++ token.kind.name.toList) ++
      ' ' :: ("Literal:".toList ++ token.literal.toList ++ ['\x7d']) := by
  simp [display, List.append_assoc]

theorem space_notMem_type (kind : Kind) : ' ' ∉ "\x7bType:".toList ++ kind.name.toList := by
  rw [List.mem_append, not_or]
  exact ⟨by decide, kind.isGraphic_name.notMem (Nat.le_refl _)⟩

/-- The name of the kind is known by the space behind it, and then the literal by what is
around it. -/
theorem display_injective {first second : Token} (h : first.display = second.display) :
    first = second := by
  have hChars := congrArg String.toList h
  have hFields := congrArg (List.splitOn ' ') hChars
  rw [toList_display, toList_display,
    List.splitOn_append_cons_self_of_not_mem (space_notMem_type first.kind),
    List.splitOn_append_cons_self_of_not_mem (space_notMem_type second.kind)] at hFields
  have hName := List.append_cancel_left (List.cons.inj hFields).1
  have hKind : first.kind = second.kind := Kind.name_injective (String.toList_inj.mp hName)
  rw [toList_display, toList_display, hKind] at hChars
  have hRest := (List.cons.inj (List.append_cancel_left hChars)).2
  have hLiteral := List.append_cancel_left (List.append_cancel_right hRest)
  obtain ⟨kind, literal⟩ := first
  obtain rfl : kind = second.kind := hKind
  obtain rfl : literal = second.literal := String.toList_inj.mp hLiteral
  rfl

/-- A control character stands alone, as an illegal byte. -/
theorem Spelled.eq_illegal_of_mem {token : Token} (h : token.Spelled) {character : Char}
    (hCharacter : character.toNat ≤ ' '.toNat) (hMem : character ∈ token.literal.toList) :
    Byte.isStray character.toUInt8 = true ∧
      token = ⟨.illegal, Text.ofCodePoints [character.toUInt8]⟩ := by
  by_cases hKind : token.kind = .illegal
  · obtain ⟨kind, literal⟩ := token
    obtain rfl : kind = .illegal := hKind
    obtain ⟨byte, hStray, hLiteral⟩ := h
    obtain rfl : literal = Text.ofCodePoints [byte] := hLiteral
    rw [Text.toList_ofCodePoints] at hMem
    have hByte : character.toUInt8 = byte := by
      rw [List.mem_singleton.mp hMem, Text.toUInt8_ofUInt8]
    rw [hByte]
    exact ⟨hStray, rfl⟩
  · exact absurd hMem ((h.isGraphic hKind).notMem hCharacter)

/-- A line feed is a blank, so not even an illegal byte is one. -/
theorem Spelled.newline_notMem {token : Token} (h : token.Spelled) :
    '\n' ∉ token.literal.toList := by
  intro hMem
  have hStray := (h.eq_illegal_of_mem (by decide) hMem).1
  exact absurd hStray (by decide)

theorem newline_notMem_display {token : Token} (h : '\n' ∉ token.literal.toList) :
    '\n' ∉ token.display.toList := by
  have hName : '\n' ∉ token.kind.name.toList := token.kind.isGraphic_name.notMem (by decide)
  rw [toList_display]
  simp [h, hName]

/-- Each token on a line of its own. -/
def listing (tokens : List Token) : String :=
  String.join (tokens.map fun token => token.display ++ "\n")

/-- The lines of a listing are the listed tokens, and nothing is left behind the last. -/
theorem splitOn_listing {tokens : List Token}
    (h : ∀ token ∈ tokens, '\n' ∉ token.literal.toList) :
    (listing tokens).toList.splitOn '\n' =
      tokens.map (fun token => token.display.toList) ++ [[]] := by
  induction tokens with
  | nil => rfl
  | cons token tokens ih =>
      have hFirst : (listing (token :: tokens)).toList =
          token.display.toList ++ '\n' :: (listing tokens).toList := by
        simp [listing, String.toList_join]
      rw [hFirst, List.splitOn_append_cons_self_of_not_mem
        (newline_notMem_display (h token List.mem_cons_self)),
        ih fun later hLater => h later (List.mem_cons_of_mem _ hLater)]
      rfl

/-- A listing can be read back. -/
theorem listing_injective {first second : List Token}
    (hFirst : ∀ token ∈ first, '\n' ∉ token.literal.toList)
    (hSecond : ∀ token ∈ second, '\n' ∉ token.literal.toList)
    (h : listing first = listing second) : first = second := by
  have hLines := congrArg (fun text : String => text.toList.splitOn '\n') h
  rw [splitOn_listing hFirst, splitOn_listing hSecond] at hLines
  have hDisplay (one other : Token) (hSame : one.display.toList = other.display.toList) :
      one = other := display_injective (String.toList_inj.mp hSame)
  exact (List.map_inj_right hDisplay).mp (List.append_cancel_right hLines)

end Token

namespace Lexer

/-- The tokens of a line up to the first end of input in it. -/
def contentOf (line : String) : List Token := (stream (Text.bytes line)).takeWhile isContent

theorem tokenize_ofString_fst (line : String) :
    (ofString line).tokenize.1 = contentOf line ++ [.eof] := tokenize_fst (ofString line)

/-- This holds of every line, also of one that has NUL characters or stray bytes in it. -/
theorem newline_notMem_contentOf {line : String} {token : Token} (h : token ∈ contentOf line) :
    '\n' ∉ token.literal.toList :=
  (spelled_of_mem_stream ((List.takeWhile_sublist _).mem h)).newline_notMem

end Lexer

namespace Session

variable {config : Config} {fragments : Message → List String}

/-- Without colour no kind of token has a style. -/
theorem tokenLine_of_plain (hPlain : config.colour = false) (token : Token) :
    tokenLine config token = token.display ++ "\n" := by
  simp [tokenLine, paint, hPlain, Text.styled]

/-- A session without colour answers with the listing and nothing else. -/
theorem join_listTokens (hPlain : config.colour = false) (line : String) :
    String.join (listTokens config line) = Token.listing (Lexer.contentOf line) :=
  congrArg String.join (List.map_congr_left fun token _ => tokenLine_of_plain hPlain token)

namespace Writer

theorem deliver_tokens (hFragments : ∀ message, String.join (fragments message) =
    message.text config) (hPlain : config.colour = false) (line : String) :
    (tokens fragments (.ofString line)).deliver none =
      ⟨Text.bytes (Token.listing (Lexer.contentOf line)), none⟩ := by
  rw [(writes_tokens hFragments (.ofString line)).deliver_none, ← join_listTokens hPlain,
    Text.bytes_join]
  rfl

/-- Without colour a line is answered with the listing of its tokens but the last, which is
an end of input. Nothing that is listed breaks a line, and so the listings of two lines
are the same exactly if their tokens are. -/
theorem listing_faithful (hFragments : ∀ message, String.join (fragments message) =
    message.text config) (hPlain : config.colour = false) :
    (∀ line : String, ∃ content : List Token,
      (Lexer.ofString line).tokenize.1 = content ++ [.eof] ∧
      (∀ token ∈ content, token.kind ≠ .eof) ∧
      listTokens config line = content.map (fun token => token.display ++ "\n") ∧
      (tokens fragments (.ofString line)).deliver none =
        ⟨Text.bytes (String.join (content.map fun token => token.display ++ "\n")), none⟩) ∧
    (∀ line : String, ∀ token ∈ (Lexer.ofString line).tokenize.1,
      '\n' ∉ token.literal.toList) ∧
    ∀ first second : String,
      (tokens fragments (.ofString first)).deliver none =
          (tokens fragments (.ofString second)).deliver none ↔
        (Lexer.ofString first).tokenize.1 = (Lexer.ofString second).tokenize.1 := by
  refine ⟨fun line => ?_, fun line token hToken => ?_, fun first second => ?_⟩
  · refine ⟨Lexer.contentOf line, Lexer.tokenize_ofString_fst line, ?_, ?_,
      deliver_tokens hFragments hPlain line⟩
    · intro token hToken
      simpa [Lexer.isContent] using List.mem_takeWhile_imp hToken
    · exact List.map_congr_left fun token _ => tokenLine_of_plain hPlain token
  · rw [Lexer.tokenize_ofString_fst, List.mem_append] at hToken
    rcases hToken with hContent | hEof
    · exact Lexer.newline_notMem_contentOf hContent
    · rw [List.mem_singleton.mp hEof]
      exact List.not_mem_nil
  · rw [deliver_tokens hFragments hPlain, deliver_tokens hFragments hPlain,
      Lexer.tokenize_ofString_fst, Lexer.tokenize_ofString_fst]
    constructor
    · intro hSame
      have hListing := Text.bytes_injective (Delivery.mk.inj hSame).1
      rw [Token.listing_injective (fun _ => Lexer.newline_notMem_contentOf)
        (fun _ => Lexer.newline_notMem_contentOf) hListing]
    · intro hSame
      rw [List.append_cancel_right hSame]

/-- A brace and an escape character are listed as they are. Blanks leave no trace, and nor
does what stands behind a NUL. -/
theorem listing_faithful_raw_literals :
    let fragments (message : Message) := [message.text {}]
    let listed := "\x7bType:\x7d Literal:\x7d\x7d\n\x7bType:ILLEGAL Literal:\x1b\x7d\n"
    (tokens fragments (.ofString "\x7d\x1b")).deliver none = ⟨Text.bytes listed, none⟩ ∧
      (tokens fragments (.ofString "\x7d\n\x1b\x00let")).deliver none =
        (tokens fragments (.ofString "\x7d\x1b")).deliver none := by
  intro fragments listed
  have hFragments : ∀ message, String.join (fragments message) = message.text {} := by
    intro message
    simp [fragments]
  obtain ⟨hListed, -, hSame⟩ := listing_faithful hFragments rfl
  refine ⟨?_, (hSame _ _).mpr ?_⟩
  · obtain ⟨content, -, -, hLines, hDelivered⟩ := hListed "\x7d\x1b"
    rw [hDelivered, ← hLines]
    decide +kernel
  · decide +kernel

end Writer

end Session

end LetLang
