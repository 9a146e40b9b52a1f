import LetLang.Proofs.Cursor.Progress
import LetLang.Proofs.Token.Segments

/-! Positions. All that a scanner ever does to itself is to advance, and to advance sets its
read position and its current byte by its position, which stays within the input. So its
position is all that it remembers: what it delivers from there on is what a new scanner
over the remaining bytes delivers, and a parser that takes over cannot tell them apart. -/
namespace LetLang

namespace Lexer

variable {lexer : Lexer}

theorem after_append_next (calls : List Call) (lexer : Lexer) :
    lexer.after (calls ++ [.next]) = (lexer.after calls).next.2 := by
  induction calls generalizing lexer with
  | nil => rfl
  | cons call calls ih => cases call <;> exact ih _

/-- With bytes ahead a call moves the position on, even if they are only blanks. -/
theorem position_lt_next (h : lexer.ahead ≠ []) : lexer.position < lexer.next.2.position := by
  unfold next
  cases hRead : Lexeme.read? lexer.ahead with
  | none =>
      have hAhead := List.length_pos_iff.mpr h
      dsimp only
      omega
  | some lexeme =>
      have hText := List.length_pos_iff.mpr (Lexeme.text_ne_nil hRead)
      dsimp only
      omega

/-- At the end a lexer delivers ends of input and stays where it is, however often it is
asked. -/
theorem next_of_nil (h : lexer.ahead = []) : lexer.next = (.eof, lexer) := by
  obtain ⟨position, ahead⟩ := lexer
  obtain rfl : ahead = [] := h
  rfl

/-- The same bytes ahead, with so many more behind. -/
def shift (count : Nat) (lexer : Lexer) : Lexer :=
  { lexer with position := count + lexer.position }

/-- A token depends on the bytes ahead only. The position is moved on by as much, wherever
it was. -/
theorem next_shift (count : Nat) (lexer : Lexer) :
    (lexer.shift count).next = (lexer.next.1, lexer.next.2.shift count) := by
  obtain ⟨position, ahead⟩ := lexer
  simp only [next, shift]
  cases Lexeme.read? ahead with
  | none => simp only [Nat.add_assoc]
  | some lexeme => simp only [Nat.add_assoc]

/-- The end of input is the last token of the list and is part of it. -/
theorem tokenize_of_eof (h : lexer.next.1.kind = .eof) :
    lexer.tokenize = ([lexer.next.1], lexer.next.2) := by
  rw [tokenize, if_pos h]

/-- Any other token is followed by what tokenizing gives from there. -/
theorem tokenize_of_content (h : lexer.next.1.kind ≠ .eof) :
    lexer.tokenize = (lexer.next.1 :: lexer.next.2.tokenize.1, lexer.next.2.tokenize.2) := by
  rw [tokenize, if_neg h]

/-- The shift is carried along from token to token, so the recursion is the same. -/
theorem tokenize_shift (count : Nat) (lexer : Lexer) :
    (lexer.shift count).tokenize = (lexer.tokenize.1, lexer.tokenize.2.shift count) := by
  induction lexer using tokenize.induct with
  | case1 lexer hEof =>
      have hShifted : (lexer.shift count).next.1.kind = .eof := by
        rw [next_shift]
        exact hEof
      rw [tokenize_of_eof hShifted, tokenize_of_eof hEof, next_shift]
  | case2 lexer hContent ih =>
      have hShifted : (lexer.shift count).next.1.kind ≠ .eof := by
        rw [next_shift]
        exact hContent
      rw [tokenize_of_content hShifted, tokenize_of_content hContent, next_shift, ih]

/-- The bytes behind have no part in what is delivered, and are behind for ever. -/
theorem calls_shift (calls : List Call) (count : Nat) (lexer : Lexer) :
    (lexer.shift count).deliveries calls = lexer.deliveries calls ∧
      (lexer.shift count).after calls = (lexer.after calls).shift count := by
  refine Call.deliveries_eq_of_related (fun shifted (lexer : Lexer) => shifted = lexer.shift count)
    ?_ ?_ calls rfl
  · rintro _ lexer rfl
    exact Prod.ext_iff.mp (next_shift count lexer)
  · rintro _ lexer rfl
    exact Prod.ext_iff.mp (tokenize_shift count lexer)

end Lexer

namespace Scanner

variable {scanner other before middle later : Scanner} {lexer : Lexer}

/-- The position is within the input or right behind it, and says what the other fields are. -/
structure Sound (scanner : Scanner) : Prop where
  position_le : scanner.position ≤ scanner.input.length
  readPosition_eq : scanner.readPosition = scanner.position + 1
  current_eq : scanner.current = (scanner.input[scanner.position]?).getD 0

/-- To advance is sound from any state, for both indices stop at the end of the input. -/
theorem sound_advance (scanner : Scanner) : scanner.advance.Sound where
  position_le := Nat.min_le_right _ _
  readPosition_eq := Nat.add_min_add_right _ _ _
  current_eq := by
    change (scanner.input[scanner.readPosition]?).getD 0 =
      (scanner.input[min scanner.readPosition scanner.input.length]?).getD 0
    by_cases hEnd : scanner.readPosition ≤ scanner.input.length
    · rw [Nat.min_eq_left hEnd]
    · have hLength : scanner.input.length ≤ scanner.readPosition := Nat.le_of_not_le hEnd
      rw [Nat.min_eq_right hLength, List.getElem?_eq_none hLength, List.getElem?_eq_none le_rfl]

/-- At the end of the input advancing keeps the position; it never goes back. -/
theorem Sound.position_le_advance (h : scanner.Sound) :
    scanner.position ≤ scanner.advance.position := by
  have hPosition := h.position_le
  change scanner.position ≤ min scanner.readPosition scanner.input.length
  rw [h.readPosition_eq]
  omega

/-- A scanner on its way, which is made of advances. -/
inductive Moves (before : Scanner) : Scanner → Prop where
  | refl : Moves before before
  | advance {later : Scanner} (prior : Moves before later) : Moves before later.advance

theorem Moves.trans (left : before.Moves middle) (right : middle.Moves later) :
    before.Moves later := by
  induction right with
  | refl => exact left
  | advance prior ih => exact ih.advance

/-- A run of bytes is skipped by advancing at each. -/
theorem moves_skip (bytes : ByteClass) (scanner : Scanner) :
    scanner.Moves (scanner.skip bytes) := by
  fun_induction skip bytes scanner with
  | case1 scanner hMore ih => exact Moves.refl.advance.trans ih
  | case2 scanner hEnd => exact .refl

/-- A symbol of two characters takes one more advance than one of a single character. -/
theorem moves_symbol (symbol : Symbol) (scanner : Scanner) :
    scanner.Moves (scanner.symbol symbol).2 := by
  unfold Scanner.symbol
  split
  · exact Moves.refl.advance
  · split
    · exact Moves.refl.advance
    · exact Moves.refl.advance.advance

/-- Every branch advances by itself or through one of the two readers above. -/
theorem moves_start (scanner : Scanner) : scanner.Moves scanner.start.2 := by
  unfold start
  split
  · exact moves_symbol _ scanner
  · split_ifs
    · exact Moves.refl.advance
    · exact moves_skip .letters scanner
    · exact moves_skip .digits scanner
    · exact Moves.refl.advance

theorem moves_next (scanner : Scanner) : scanner.Moves scanner.next.2 :=
  (moves_skip .blanks scanner).trans (moves_start _)

theorem moves_tokenize (scanner : Scanner) : scanner.Moves scanner.tokenize.2 := by
  fun_induction tokenize scanner with
  | case1 scanner hEof => exact moves_next scanner
  | case2 scanner hContent ih => exact (moves_next scanner).trans ih

/-- Whatever is asked for, and in whatever order, nothing but advances is made. -/
theorem moves_after (calls : List Lexer.Call) (scanner : Scanner) :
    scanner.Moves (scanner.after calls) := by
  induction calls generalizing scanner with
  | nil => exact .refl
  | cons call calls ih =>
      cases call with
      | next => exact (moves_next scanner).trans (ih scanner.next.2)
      | tokenize => exact (moves_tokenize scanner).trans (ih scanner.tokenize.2)

/-- The input is never written to. -/
theorem Moves.input_eq (h : before.Moves later) : later.input = before.input := by
  induction h with
  | refl => rfl
  | advance prior ih => exact ih

/-- However far a sound scanner has moved, it is sound. Each advance makes it so anew. -/
theorem Moves.sound (h : before.Moves later) (hBefore : before.Sound) : later.Sound := by
  cases h with
  | refl => exact hBefore
  | advance prior => exact sound_advance _

/-- This needs a sound start, because from a position behind the input an advance would go
back to its end. -/
theorem Moves.position_le (h : before.Moves later) (hBefore : before.Sound) :
    before.position ≤ later.position := by
  induction h with
  | refl => exact le_rfl
  | advance prior ih => exact ih.trans (prior.sound hBefore).position_le_advance

/-- The bytes behind and ahead are the input cut in two at the position. -/
theorem Sound.between (h : scanner.Sound) :
    scanner.Between (scanner.input.take scanner.position)
      (scanner.input.drop scanner.position) where
  input_eq := (List.take_append_drop _ _).symm
  position_eq := by rw [List.length_take, Nat.min_eq_left h.position_le]
  readPosition_eq := by rw [List.length_take, Nat.min_eq_left h.position_le, h.readPosition_eq]
  current_eq := by rw [h.current_eq, List.headD_eq_head?_getD, List.head?_drop]

/-- A run is cut out of the input within its bounds. All its bytes are ASCII, and they are
the bytes of its text, so nothing in it is replaced. -/
structure CutsText (bytes : ByteClass) (scanner : Scanner) : Prop where
  start_le : scanner.position ≤ (scanner.skip bytes).position
  end_le : (scanner.skip bytes).position ≤ scanner.input.length
  ascii : ∀ byte ∈ scanner.slice bytes, byte.toNat < 128
  bytes_text : Text.bytes (scanner.run bytes).1 = scanner.slice bytes

/-- A class has only ASCII bytes, so a run never ends inside a character. -/
theorem Sound.cutsText (h : scanner.Sound) (bytes : ByteClass) : scanner.CutsText bytes where
  start_le := (moves_skip bytes scanner).position_le h
  end_le := by
    rw [← (moves_skip bytes scanner).input_eq]
    exact ((moves_skip bytes scanner).sound h).position_le
  ascii := fun _ => h.between.toNat_lt_of_mem_slice
  bytes_text := by
    rw [h.between.run_fst]
    exact Text.bytes_ofCodePoints fun _ => h.between.toNat_lt_of_mem_slice

/-- The lexer with the bytes ahead that a scanner has from its position on. -/
def view (scanner : Scanner) : Lexer :=
  ⟨scanner.position, scanner.input.drop scanner.position⟩

theorem view_eq_shift (scanner : Scanner) : scanner.view =
    (Lexer.ofBytes (scanner.input.drop scanner.position)).shift scanner.position := rfl

/-- A sound scanner is in the state of the lexer with the bytes from its position on. -/
theorem Sound.tracks (h : scanner.Sound) : scanner.Tracks scanner.view :=
  ⟨_, h.between, h.between.position_eq⟩

/-- It is in the state of no other lexer. -/
theorem Tracks.view_eq (h : scanner.Tracks lexer) : scanner.view = lexer := by
  obtain ⟨behind, hBetween, hPosition⟩ := h
  rw [view, hBetween.input_eq, hBetween.position_eq, List.drop_left, ← hPosition]

theorem tracks_ofBytes (bytes : List UInt8) : (ofBytes bytes).Tracks (.ofBytes bytes) :=
  ⟨[], between_ofBytes bytes, rfl⟩

/-- Sound scanners of one input at one position are the same. The read position and the
current byte remember nothing of their own. -/
theorem Sound.eq_of_position_eq (h : scanner.Sound) (hOther : other.Sound)
    (hInput : other.input = scanner.input) (hPosition : other.position = scanner.position) :
    other = scanner := by
  have hRead := hOther.readPosition_eq
  have hCurrent := hOther.current_eq
  rw [hPosition, ← h.readPosition_eq] at hRead
  rw [hInput, hPosition, ← h.current_eq] at hCurrent
  obtain ⟨input, position, readPosition, current⟩ := scanner
  obtain ⟨rfl, rfl, rfl, rfl⟩ := And.intro hInput (And.intro hPosition (And.intro hRead hCurrent))
  rfl

/-- At the end of the input there is nothing to move on to. -/
theorem Sound.next_of_end (h : scanner.Sound) (hEnd : scanner.position = scanner.input.length) :
    scanner.next = (.eof, scanner) := by
  have hAhead : scanner.view.ahead = [] := List.drop_of_length_le hEnd.ge
  obtain ⟨hToken, hLater⟩ := h.tracks.next
  rw [Lexer.next_of_nil hAhead] at hToken hLater
  have hMoves := moves_next scanner
  have hPosition := congrArg Lexer.position hLater.view_eq
  exact Prod.ext hToken (h.eq_of_position_eq (hMoves.sound h) hMoves.input_eq hPosition)

/-- Each token that is asked for before the end moves the position on, also an end of
input that a NUL makes. -/
theorem Sound.position_lt_next (h : scanner.Sound)
    (hMore : scanner.position ≠ scanner.input.length) :
    scanner.position < scanner.next.2.position := by
  have hAhead : scanner.view.ahead ≠ [] := by
    intro hNil
    exact hMore (Nat.le_antisymm h.position_le (List.drop_eq_nil_iff.mp hNil))
  have hPosition := congrArg Lexer.position h.tracks.next.2.view_eq
  exact (Lexer.position_lt_next hAhead).trans_eq hPosition.symm

/-- A scanner goes on as a new one does over the bytes from its position on, and stays as far
ahead of it as it was. -/
theorem Sound.calls_eq (h : scanner.Sound) (calls : List Lexer.Call) :
    scanner.deliveries calls =
        (ofBytes (scanner.input.drop scanner.position)).deliveries calls ∧
      (scanner.after calls).position = scanner.position +
        ((ofBytes (scanner.input.drop scanner.position)).after calls).position := by
  have hFresh := tracks_ofBytes (scanner.input.drop scanner.position)
  obtain ⟨hDelivered, hAfter⟩ :=
    Lexer.calls_shift calls scanner.position (.ofBytes (scanner.input.drop scanner.position))
  rw [← view_eq_shift] at hDelivered hAfter
  constructor
  · rw [h.tracks.deliveries_eq, hFresh.deliveries_eq, hDelivered]
  · have hPosition := congrArg Lexer.position (h.tracks.calls calls).2.view_eq
    have hFreshPosition := congrArg Lexer.position (hFresh.calls calls).2.view_eq
    rw [hAfter] at hPosition
    exact hPosition.trans (congrArg (scanner.position + ·) hFreshPosition.symm)

end Scanner

namespace Cursor

variable {cursor before after last : Cursor} {passed : List Token}
  {outcomes : List (Option Statement)}

/-- A cursor asks its lexer for one token at a time, and for nothing else. -/
theorem Passes.lexer_eq (h : before.Passes passed after) :
    after.lexer = before.lexer.after (List.replicate passed.length .next) := by
  induction h with
  | refl => rfl
  | @advance passed after prior ih =>
      rw [List.length_append, List.length_singleton, List.replicate_succ',
        Lexer.after_append_next, ← ih]
      rfl
  | record prior cause ih => exact ih

/-- A run takes its cursor from statement to statement, and never back. -/
theorem Runs.precedes (h : Runs cursor outcomes last) : cursor.Precedes last := by
  induction h with
  | stop hEnd => exact .refl _
  | @step cursor last outcomes hMore later ih =>
      obtain ⟨passed, hPasses⟩ := exists_passes_statement 0 cursor
      exact Precedes.trans ⟨_, hPasses⟩ ih

/-- All that a parser does to the lexer it took over is to ask for single tokens. -/
theorem Runs.exists_lexer_eq {lexer : Lexer} (h : Runs (ofLexer lexer) outcomes last) :
    ∃ count, last.lexer = lexer.after (List.replicate count .next) := by
  have hFirst : Precedes ⟨.eof, .eof, lexer, []⟩ (ofLexer lexer) :=
    ⟨_, Passes.refl.advance.advance⟩
  obtain ⟨passed, hPasses⟩ := hFirst.trans h.precedes
  exact ⟨passed.length, hPasses.lexer_eq⟩

/-- Parsers that take over from lexers with the same bytes ahead find and record the same. -/
theorem exists_runs_of_ahead_eq {lexer other : Lexer} (h : other.ahead = lexer.ahead) :
    ∃ outcomes last otherLast, Runs (ofLexer lexer) outcomes last ∧
      Runs (ofLexer other) outcomes otherLast ∧
      otherLast.diagnostics = last.diagnostics ∧
      (Parser.ofLexer lexer).program = (⟨outcomes.filterMap id⟩, ⟨[], last.diagnostics⟩) := by
  obtain ⟨last, hRun, hProgram⟩ := exists_runs_ofLexer lexer
  obtain ⟨otherLast, hOtherRun, hOtherProgram⟩ := exists_runs_ofLexer other
  have hParser : Parser.ofLexer other = Parser.ofLexer lexer := by
    rw [Parser.ofLexer, Parser.ofLexer, h]
  have hResult := hOtherProgram.symm.trans ((congrArg Parser.program hParser).trans hProgram)
  rw [h] at hOtherRun
  exact ⟨_, last, otherLast, hRun, hOtherRun,
    congrArg (fun result => result.2.diagnostics) hResult, hProgram⟩

end Cursor

/-- After any calls a scanner's position is within its input and its other fields follow from
it, so the runs that it reads next are cut out within bounds. The next token moves the
position on, unless it is at the end, where nothing changes any more. What is delivered
later is what a new scanner over the remaining bytes delivers, and the lexer after the same
calls stands at the same bytes. A parser that takes over from there finds what it finds in
the remaining bytes alone, and only ever moves the scanner on by single tokens. -/
theorem Scanner.position_sound_and_only_memory (source : String) (calls : List Lexer.Call) :
    let scanner := (ofString source).after calls
    let lexer := (Lexer.ofString source).after calls
    let rest := (Text.bytes source).drop scanner.position
    (scanner.input = Text.bytes source ∧ scanner.Sound) ∧
    (∀ bytes ∈ [ByteClass.letters, ByteClass.digits],
      (scanner.skip .blanks).CutsText bytes) ∧
    (if scanner.position = scanner.input.length then scanner.next = (.eof, scanner)
      else scanner.position < scanner.next.2.position) ∧
    (∀ later, scanner.deliveries later = (ofBytes rest).deliveries later ∧
      (scanner.after later).position =
        scanner.position + ((ofBytes rest).after later).position) ∧
    (lexer = scanner.view ∧ ∀ later, lexer.deliveries later = scanner.deliveries later) ∧
    Parser.ofLexer lexer = Parser.ofLexer (.ofBytes rest) ∧
    ∃ outcomes last fresh, Cursor.Runs (.ofLexer lexer) outcomes last ∧
      Cursor.Runs (.ofLexer (.ofBytes rest)) outcomes fresh ∧
      fresh.diagnostics = last.diagnostics ∧
      (∃ count, last.lexer = (scanner.after (List.replicate count .next)).view) ∧
      (Parser.ofLexer lexer).program = (⟨outcomes.filterMap id⟩, ⟨[], last.diagnostics⟩) := by
  intro scanner lexer rest
  have hMoves : (ofString source).Moves scanner := moves_after calls _
  have hInput : scanner.input = Text.bytes source := hMoves.input_eq
  have hSound : scanner.Sound := hMoves.sound (sound_advance _)
  have hTracks : scanner.Tracks lexer := ((tracks_ofString source).calls calls).2
  have hRest : scanner.input.drop scanner.position = rest := by rw [hInput]
  have hAhead : (Lexer.ofBytes rest).ahead = lexer.ahead := by
    rw [← hTracks.view_eq]
    exact hRest.symm
  refine ⟨⟨hInput, hSound⟩, fun bytes _ => ?_, ?_, fun later => ?_,
    ⟨hTracks.view_eq.symm, fun later => (hTracks.deliveries_eq later).symm⟩, ?_, ?_⟩
  · exact ((moves_skip .blanks scanner).sound hSound).cutsText bytes
  · split
    · next hEnd => exact hSound.next_of_end hEnd
    · next hMore => exact hSound.position_lt_next hMore
  · rw [← hRest]
    exact hSound.calls_eq later
  · rw [Parser.ofLexer, Parser.ofLexer, hAhead]
  · obtain ⟨outcomes, last, fresh, hRun, hFresh, hDiagnostics, hProgram⟩ :=
      Cursor.exists_runs_of_ahead_eq hAhead
    obtain ⟨count, hLexer⟩ := hRun.exists_lexer_eq
    have hView := (hTracks.calls (List.replicate count .next)).2.view_eq
    exact ⟨outcomes, last, fresh, hRun, hFresh, hDiagnostics, ⟨count, hLexer.trans hView.symm⟩,
      hProgram⟩

/-- Between the two bytes of a letter there is a position, and no text from there on. -/
example : ((Scanner.ofString "é").after [.next]).position = 1 ∧
    Text.ofBytes? ((Text.bytes "é").drop 1) = none := by
  decide +kernel

end LetLang
