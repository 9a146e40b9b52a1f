import LetLang.Proofs.Canonical.Reparsing
import LetLang.Proofs.Session.Listing
import LetLang.Proofs.Text.ControlSequence

/-! Colour. A session in colour writes, piece by piece, what it writes without, with
control sequences around some of the pieces. Programs and diagnostics hold no escape
character, whatever was typed. A token can be one, but it is listed with a brace behind
it, and so no piece ends in a part of a sequence. -/
namespace LetLang

open Text (Decorates decorates_self decorates_empty)

/-- No symbol has an escape character in it. -/
theorem Symbol.decorates_spelling (symbol : Symbol) :
    Decorates symbol.spelling symbol.spelling := by
  cases symbol <;> exact decorates_self (by decide)

/-- An escape character comes before the space, so no graphic text holds one. -/
theorem Text.IsGraphic.decorates {text : String} (h : IsGraphic text) : Decorates text text :=
  decorates_self (h.notMem (by decide))

/-- Names and numerals are graphic, and all else in a canonical text is put there by the
printer. -/
theorem Expr.WellFormed.decorates_render {expr : Expr} (h : expr.WellFormed) :
    Decorates expr.render expr.render := by
  have hOpen : Decorates "(" "(" := decorates_self (by decide)
  have hSpace : Decorates " " " " := decorates_self (by decide)
  have hClose : Decorates ")" ")" := decorates_self (by decide)
  induction h with
  | name hWord => exact hWord.1.isGraphic.decorates
  | integer hNumeral hValue => exact hNumeral.isGraphic.decorates
  | @unary operator operand hOperator hOperand ih =>
      exact ((hOpen.append operator.decorates_spelling).append ih).append hClose
  | @binary operator left right hOperator hLeft hRight ihLeft ihRight =>
      have hFront := ((hOpen.append ihLeft).append hSpace).append operator.decorates_spelling
      exact ((hFront.append hSpace).append ihRight).append hClose

theorem Statement.WellFormed.decorates_render {statement : Statement} (h : statement.WellFormed) :
    Decorates statement.render statement.render := by
  have hSpace : Decorates " " " " := decorates_self (by decide)
  have hEnd : Decorates ";" ";" := decorates_self (by decide)
  cases h with
  | binding hWord hValue =>
      have hKeyword : Decorates "let" "let" := decorates_self (by decide)
      have hAssign : Decorates " = " " = " := decorates_self (by decide)
      have hName := (hKeyword.append hSpace).append hWord.1.isGraphic.decorates
      exact ((hName.append hAssign).append hValue.decorates_render).append hEnd
  | result hValue =>
      have hKeyword : Decorates "return" "return" := decorates_self (by decide)
      exact ((hKeyword.append hSpace).append hValue.decorates_render).append hEnd
  | expression hValue => exact hValue.decorates_render

namespace Program

/-- A program that is not well-formed could have anything in its names. -/
theorem WellFormed.decorates_render {program : Program} (h : program.WellFormed) :
    Decorates program.render program.render := by
  obtain ⟨statements⟩ := program
  induction statements with
  | nil => exact decorates_empty
  | cons statement later ih =>
      have hFirst := (h statement List.mem_cons_self).decorates_render
      cases later with
      | nil => simpa [render] using hFirst
      | cons next later =>
          rw [render_cons_cons]
          exact hFirst.line.append (ih fun tail hTail => h tail (List.mem_cons_of_mem _ hTail))

/-- This holds of what is parsed without diagnostics, which is all that a session
prints. -/
theorem decorates_render_of_parse {source : String} {program : Program}
    (h : parse source = (program, [])) : Decorates program.render program.render := by
  rw [← program.render_canonical]
  exact (wellFormed_canonical_of_parse h).decorates_render

end Program

namespace Text.Quoted

/-- The hexadecimal text of a number holds digits only. -/
theorem exists_digitChar_of_mem_toDigits {number : Nat} {character : Char}
    (h : character ∈ Nat.toDigits 16 number) : ∃ digit < 16, character = Nat.digitChar digit := by
  induction number using Nat.strongRecOn with
  | _ number ih =>
      rw [Nat.toDigits_eq_if (by decide)] at h
      split at h
      · next hSmall => exact ⟨number, hSmall, List.mem_singleton.mp h⟩
      · next hLarge =>
          rcases List.mem_append.mp h with hFront | hLast
          · exact ih (number / 16) (by omega) hFront
          · exact ⟨number % 16, Nat.mod_lt number (by decide), List.mem_singleton.mp hLast⟩

theorem escape_notMem_codePoint (character : Char) : '\x1b' ∉ codePoint character := by
  have hDigits : '\x1b' ∉ Nat.toDigits 16 character.toNat := by
    intro hMem
    obtain ⟨digit, hDigit, hEscape⟩ := exists_digitChar_of_mem_toDigits hMem
    have hOther : ∀ digit < 16, '\x1b' ≠ Nat.digitChar digit := by decide
    exact hOther digit hDigit hEscape
  simp [codePoint, hDigits]

/-- An escape character is invisible, and quoted by its code point. -/
theorem escape_notMem_escape (character : Char) : '\x1b' ∉ escape character := by
  unfold escape
  split
  · decide
  · decide
  · decide
  · decide
  · decide
  · decide
  · split
    · exact escape_notMem_codePoint character
    · next hVisible =>
        intro hMem
        obtain rfl := List.mem_singleton.mp hMem
        exact hVisible (by decide)

/-- Quoting leaves no escape character, whatever text is quoted. -/
theorem decorates_encode (text : String) : Decorates (encode text) (encode text) := by
  refine decorates_self ?_
  simp [encode, escape_notMem_escape]

end Text.Quoted

namespace Diagnostic

/-- Kinds have names without an escape character, and a literal that is reported is
quoted. -/
theorem decorates_message (diagnostic : Diagnostic) :
    Decorates diagnostic.message diagnostic.message := by
  have hName (kind : Kind) : Decorates kind.name kind.name := kind.isGraphic_name.decorates
  cases diagnostic with
  | unexpected expected found =>
      have hFront : Decorates "expected next token to be " "expected next token to be " :=
        decorates_self (by decide)
      have hMiddle : Decorates ", got " ", got " := decorates_self (by decide)
      exact ((hFront.append (hName expected)).append hMiddle).append (hName found)
  | noOperand found =>
      have hFront : Decorates "no prefix parse function for " "no prefix parse function for " :=
        decorates_self (by decide)
      have hBack : Decorates " found" " found" := decorates_self (by decide)
      exact (hFront.append (hName found)).append hBack
  | badInteger literal =>
      have hFront : Decorates "could not parse " "could not parse " := decorates_self (by decide)
      have hBack : Decorates " as integer" " as integer" := decorates_self (by decide)
      exact (hFront.append (Text.Quoted.decorates_encode literal)).append hBack
  | tooDeep => exact decorates_self (by decide)

end Diagnostic

namespace Token

/-- An escape character that was typed is followed by the closing brace. -/
theorem decorates_display_escape :
    Decorates (display ⟨.illegal, "\x1b"⟩) (display ⟨.illegal, "\x1b"⟩) := by
  have hFront : Decorates "\x7bType:ILLEGAL Literal:" "\x7bType:ILLEGAL Literal:" :=
    decorates_self (by decide)
  have hBack : Decorates "\x1b\x7d" "\x1b\x7d" := by
    intro rest
    change Text.strip (0x1b :: 0x7d :: rest) = 0x1b :: 0x7d :: Text.strip rest
    rw [Text.strip_escape_cons (by decide), Text.strip_cons (by decide)]
  exact hFront.append hBack

/-- No listed token has anything deleted from it. An illegal one can be an escape character,
but then a brace follows it. -/
theorem Spelled.decorates_display {token : Token} (h : token.Spelled) :
    Decorates token.display token.display := by
  by_cases hEscape : '\x1b' ∈ token.literal.toList
  · rw [(h.eq_illegal_of_mem (by decide) hEscape).2]
    exact decorates_display_escape
  · have hOpen : Decorates "\x7bType:" "\x7bType:" := decorates_self (by decide)
    have hLabel : Decorates " Literal:" " Literal:" := decorates_self (by decide)
    have hClose : Decorates "\x7d" "\x7d" := decorates_self (by decide)
    have hKind := hOpen.append token.kind.isGraphic_name.decorates
    exact ((hKind.append hLabel).append (decorates_self hEscape)).append hClose

end Token

namespace Session

variable (config : Config)

/-- The session without colour. -/
def Config.plain : Config := { config with colour := false }

/-- Styled or not, a piece is the plain one once its sequences are deleted. -/
theorem decorates_paint {style? : Option Text.Style} (hStyle : ∀ style ∈ style?, style.Transparent)
    {text : String} (hText : Decorates text text) : Decorates (paint config style? text) text := by
  unfold paint
  split
  · cases style? with
    | none => exact hText
    | some style => exact (hStyle style rfl).decorates_apply hText
  · exact hText

/-- Every style that a token can have is made of control sequences alone. -/
theorem transparent_tokenStyle? (kind : Kind) : ∀ style ∈ tokenStyle? kind, style.Transparent := by
  intro style hStyle
  unfold tokenStyle? at hStyle
  split_ifs at hStyle
  · exact Text.Style.transparent_red.of_mem_some hStyle
  · exact Text.Style.transparent_blue.of_mem_some hStyle
  · exact Text.Style.transparent_yellow.of_mem_some hStyle
  · cases hStyle

theorem decorates_tokenLine {token : Token} (h : token.Spelled) :
    Decorates (tokenLine config token) (tokenLine config.plain token) :=
  (decorates_paint config (transparent_tokenStyle? token.kind) h.decorates_display).line

theorem decorates_diagnosticLine (diagnostic : Diagnostic) :
    Decorates (diagnosticLine config diagnostic) (diagnosticLine config.plain diagnostic) := by
  have hTab : Decorates "\t" "\t" := decorates_self (by decide)
  have hRed : ∀ style ∈ some Text.Style.red, style.Transparent :=
    fun _ => Text.Style.transparent_red.of_mem_some
  exact (decorates_paint config hRed (hTab.append diagnostic.decorates_message)).line

/-- Both sessions list the same tokens, in as many pieces. -/
theorem decorates_listTokens (line : String) :
    List.Forall₂ Decorates (listTokens config line) (listTokens config.plain line) := by
  refine List.forall₂_map_left_iff.mpr (List.forall₂_map_right_iff.mpr ?_)
  refine List.forall₂_same.mpr fun token hToken => decorates_tokenLine config ?_
  exact Lexer.spelled_of_mem_stream ((List.takeWhile_sublist _).mem hToken)

/-- Whether a program or its diagnostics are shown does not depend on colour. -/
theorem decorates_showProgram (line : String) :
    List.Forall₂ Decorates (showProgram config line) (showProgram config.plain line) := by
  have hHeading : Decorates "parser errors:\n" "parser errors:\n" := decorates_self (by decide)
  unfold showProgram
  split
  · next program hParse =>
      exact .cons (Program.decorates_render_of_parse hParse).line .nil
  · refine .cons hHeading ?_
    refine List.forall₂_map_left_iff.mpr (List.forall₂_map_right_iff.mpr ?_)
    exact List.forall₂_same.mpr fun diagnostic _ => decorates_diagnosticLine config diagnostic

theorem decorates_answer (line : String) :
    List.Forall₂ Decorates (answer config line) (answer config.plain line) := by
  unfold answer
  cases hMode : config.mode with
  | tokens =>
      simp only [Config.plain, hMode]
      exact decorates_listTokens config line
  | ast =>
      simp only [Config.plain, hMode]
      exact decorates_showProgram config line

variable {config}

/-- The prompt is free text, so that it holds no escape character has to be asked for. -/
theorem decorates_promptText (hPrompt : '\x1b' ∉ config.prompt.toList) :
    Decorates (promptText config) (promptText config.plain) := by
  have hStyle : ∀ style ∈ some Text.Style.prompt, style.Transparent :=
    fun _ => Text.Style.transparent_prompt.of_mem_some
  exact decorates_paint config hStyle (decorates_self hPrompt)

/-- Piece by piece, whatever the lines are. -/
theorem decorates_converse (hPrompt : '\x1b' ∉ config.prompt.toList) (lines : List (List UInt8)) :
    List.Forall₂ Decorates (converse config lines).pieces (converse config.plain lines).pieces ∧
      (converse config lines).fault = (converse config.plain lines).fault := by
  have hFirst := decorates_promptText hPrompt
  induction lines with
  | nil => exact ⟨.cons hFirst .nil, rfl⟩
  | cons line lines ih =>
      unfold converse
      cases Text.ofBytes? line with
      | none => exact ⟨.cons hFirst .nil, rfl⟩
      | some text =>
          refine ⟨.cons hFirst ?_, ih.2⟩
          exact List.rel_append (decorates_answer config text) ih.1

/-- A whole session is stripped as its pieces are, since none of them ends in a part of a
sequence. The fault does not depend on colour. -/
theorem strip_deliver_run (hPrompt : '\x1b' ∉ config.prompt.toList) (input : List UInt8) :
    Text.strip (run config input).deliver.written = (run config.plain input).deliver.written ∧
      (run config input).deliver.fault = (run config.plain input).deliver.fault := by
  obtain ⟨hPieces, hFault⟩ := decorates_converse hPrompt (Text.Line.split input)
  have hText := (Text.decorates_join hPieces).strip_bytes
  rw [Text.bytes_join, Text.bytes_join] at hText
  exact ⟨hText, hFault⟩

/-- Colour is decoration. However the texts are broken up when they are written, what a
session in colour writes is what it writes without colour once the control sequences are
deleted, and it ends the same way. Without colour there is nothing to delete, so nothing
is lost of what was typed. -/
theorem colour_is_decoration (hPrompt : '\x1b' ∉ config.prompt.toList)
    {coloured plain : Message → List String}
    (hColoured : ∀ message,
      String.join (coloured message) = message.text { config with colour := true })
    (hPlain : ∀ message,
      String.join (plain message) = message.text { config with colour := false })
    (input : List UInt8) :
    let decorated :=
      (Writer.session coloured config.mode (Text.Line.split input)).deliver none
    let bare := (Writer.session plain config.mode (Text.Line.split input)).deliver none
    Text.strip decorated.written = bare.written ∧ decorated.fault = bare.fault ∧
      Text.strip bare.written = bare.written ∧
      decorated = (run { config with colour := true } input).deliver ∧
      bare = (run { config with colour := false } input).deliver := by
  intro decorated bare
  have hDecorated : decorated = (run { config with colour := true } input).deliver :=
    (Writer.writes_session hColoured (Text.Line.split input)).deliver_none
  have hBare : bare = (run { config with colour := false } input).deliver :=
    (Writer.writes_session hPlain (Text.Line.split input)).deliver_none
  have hStripped : ∀ colour, Text.strip (run { config with colour } input).deliver.written =
        (run { config with colour := false } input).deliver.written ∧
      (run { config with colour } input).deliver.fault =
        (run { config with colour := false } input).deliver.fault :=
    fun colour => @strip_deliver_run { config with colour } hPrompt input
  obtain ⟨hWritten, hFault⟩ := hStripped true
  refine ⟨?_, ?_, ?_, hDecorated, hBare⟩
  · rw [hDecorated, hBare, hWritten]
  · rw [hDecorated, hBare, hFault]
  · rw [hBare, (hStripped false).1]

/-- A control sequence that was typed is listed token by token, and stays. The line behind
it is no text. -/
theorem colour_is_decoration_typed_sequence :
    let coloured (message : Message) := [message.text { colour := true }]
    let typed := Text.bytes "\x1b[0m\n" ++ [0xff]
    let decorated := (Writer.session coloured .tokens (Text.Line.split typed)).deliver none
    let listed := ">> \x7bType:ILLEGAL Literal:\x1b\x7d\n\x7bType:ILLEGAL Literal:[\x7d\n" ++
      "\x7bType:INT Literal:0\x7d\n\x7bType:IDENT Literal:m\x7d\n>> "
    Text.strip decorated.written = Text.bytes listed ∧
      decorated.fault = some .invalidText := by
  intro coloured typed decorated listed
  have hColoured : ∀ message, String.join (coloured message) =
      message.text { colour := true } := by
    intro message
    simp [coloured]
  obtain ⟨hStripped, hFault, -, -, hBare⟩ :=
    @colour_is_decoration {} (by decide) coloured (fun message => [message.text {}]) hColoured
      (fun message => by simp) typed
  rw [hBare] at hStripped hFault
  refine ⟨hStripped.trans ?_, hFault.trans ?_⟩
  · decide +kernel
  · decide +kernel

end Session

end LetLang
