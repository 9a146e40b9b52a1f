import LetLang.Proofs.Session.Lines
import LetLang.Proofs.Session.Output
import LetLang.Proofs.Token.Stream

/-! Sessions write by write. Prompts, tokens, programs, and diagnostics are messages,
and each message reaches the output in fragments that make up its text. Whatever
way the texts are broken up, a session ends at the first fault, be it a full output
or a line that is not text, and what was written until then is what it would have
written anyway. -/
namespace LetLang.Session

/-- What a session writes at one time. -/
inductive Message where
  | prompt
  | token (token : Token)
  | program (program : Program)
  /-- The line above the diagnostics of a program. -/
  | heading
  | diagnostic (diagnostic : Diagnostic)

/-- The text of a message, with the control sequences of its style. -/
def Message.text (config : Config) : Message → String
  | .prompt => promptText config
  | .token shown => tokenLine config shown
  | .program shown => shown.render ++ "\n"
  | .heading => "parser errors:\n"
  | .diagnostic shown => diagnosticLine config shown

namespace Writer

variable (fragments : Message → List String)

/-- Write the fragments of a message one after another. -/
def message (message : Message) : Writing :=
  .each (fun fragment => Output.writeAll (Text.bytes fragment)) (fragments message)

/-- Write each token up to the first end of input as soon as it is read. -/
def tokens (lexer : Lexer) : Writing :=
  if lexer.next.1.kind = .eof then .done
  else (message fragments (.token lexer.next.1)).andThen (tokens lexer.next.2)
termination_by lexer.ahead.length
decreasing_by exact Lexer.next_ahead_lt (by assumption)

def program (line : String) : Writing :=
  match Program.parse line with
  | (program, []) => message fragments (.program program)
  | (_, diagnostics) =>
      (message fragments .heading).andThen
        (.each (fun diagnostic => message fragments (.diagnostic diagnostic)) diagnostics)

def answer (mode : Mode) (line : String) : Writing :=
  match mode with
  | .tokens => tokens fragments (.ofString line)
  | .ast => program fragments line

/-- Prompt before each line and at the end. A line is looked at only once its
prompt is written. -/
def session (mode : Mode) : List (List UInt8) → Writing
  | [] => message fragments .prompt
  | line :: lines =>
      (message fragments .prompt).andThen
        (match Text.ofBytes? line with
        | none => .fail .invalidText
        | some text => (answer fragments mode text).andThen (session mode lines))

section Writes

variable {fragments} {config : Config}
  (hFragments : ∀ message, String.join (fragments message) = message.text config)

include hFragments

/-- Broken up in whatever way, a message is written as the bytes of its text. -/
theorem writes_message (m : Message) :
    (message fragments m).Writes ⟨Text.bytes (m.text config), none⟩ := by
  rw [← hFragments m, Text.bytes_join]
  exact Writing.writes_each fun fragment _ => Writing.writes_writeAll (Text.bytes fragment)

/-- By the recursion of reading. The end of input is not written, and nothing behind it is
read. -/
theorem writes_tokens (lexer : Lexer) :
    (tokens fragments lexer).Writes
      ⟨(((Lexer.stream lexer.ahead).takeWhile Lexer.isContent).map
        (tokenLine config)).flatMap Text.bytes, none⟩ := by
  fun_induction tokens fragments lexer with
  | case1 lexer hEof =>
      rw [Lexer.takeWhile_stream_of_eof hEof]
      exact Writing.writes_done
  | case2 lexer hContent ih =>
      rw [Lexer.stream_of_next hContent,
        List.takeWhile_cons_of_pos (by simpa [Lexer.isContent] using hContent)]
      simpa [Message.text] using (writes_message hFragments (.token lexer.next.1)).andThen ih

/-- The line is parsed before anything is written. Its diagnostics come behind their heading. -/
theorem writes_program (line : String) :
    (program fragments line).Writes ⟨(showProgram config line).flatMap Text.bytes, none⟩ := by
  unfold program showProgram
  obtain ⟨program, _ | ⟨first, rest⟩⟩ := Program.parse line
  · simpa [Message.text] using writes_message hFragments (.program program)
  · have hDiagnostics : Writing.Writes
        (.each (fun shown => message fragments (.diagnostic shown)) (first :: rest))
        ⟨(first :: rest).flatMap fun shown => Text.bytes (diagnosticLine config shown), none⟩ :=
      Writing.writes_each fun shown _ => writes_message hFragments (.diagnostic shown)
    simpa [Message.text, List.flatMap_map] using
      (writes_message hFragments .heading).andThen hDiagnostics

theorem writes_answer (line : String) :
    (answer fragments config.mode line).Writes
      ⟨(Session.answer config line).flatMap Text.bytes, none⟩ := by
  unfold answer Session.answer
  cases config.mode with
  | tokens => exact writes_tokens hFragments (.ofString line)
  | ast => exact writes_program hFragments line

/-- By induction on the lines. At the first that is not text the session ends with that
fault, its prompt written. -/
theorem writes_session (lines : List (List UInt8)) :
    (session fragments config.mode lines).Writes (converse config lines).deliver := by
  have hPrompt : (message fragments .prompt).Writes ⟨Text.bytes (promptText config), none⟩ :=
    writes_message hFragments .prompt
  induction lines with
  | nil => simpa [session, converse, Transcript.deliver] using hPrompt
  | cons line lines ih =>
      unfold session converse
      cases Text.ofBytes? line with
      | none =>
          simpa [Transcript.deliver] using hPrompt.andThen (Writing.writes_fail .invalidText)
      | some text =>
          have hAnswer := (writes_answer hFragments text).andThen ih
          simpa [Transcript.deliver] using hPrompt.andThen hAnswer

end Writes

end Writer

/-- Some lines from the first on are text, and what stands behind them starts with a line
that is not. -/
theorem exists_text_lines (lines : List (List UInt8)) :
    ∃ (texts : List String) (later : List (List UInt8)),
      lines = texts.map Text.bytes ++ later ∧
        ∀ line ∈ later.head?, Text.ofBytes? line = none := by
  induction lines with
  | nil => exact ⟨[], [], rfl, by simp⟩
  | cons line lines ih =>
      cases hText : Text.ofBytes? line with
      | none => exact ⟨[], line :: lines, rfl, by simpa using hText⟩
      | some text =>
          obtain ⟨texts, later, rfl, hLater⟩ := ih
          obtain rfl := Text.eq_bytes_of_ofBytes?_eq_some hText
          exact ⟨text :: texts, later, rfl, hLater⟩

/-- A session answers the lines of text at the beginning of its input. What ends it is
the prompt for the first line that is not text, or for the end of the input. -/
theorem exists_deliver_run (config : Config) (input : List UInt8) :
    ∃ (texts : List String) (later : List (List UInt8)),
      Text.Line.split input = texts.map Text.bytes ++ later ∧
      (∀ line ∈ later.head?, Text.ofBytes? line = none) ∧
      (run config input).deliver =
        ⟨(texts.flatMap (exchange config) ++ [promptText config]).flatMap Text.bytes,
          if later = [] then none else some .invalidText⟩ := by
  obtain ⟨texts, later, hSplit, hLater⟩ := exists_text_lines (Text.Line.split input)
  refine ⟨texts, later, hSplit, hLater, ?_⟩
  rw [run, hSplit, converse_append]
  cases later with
  | nil => rfl
  | cons line later =>
      rw [converse, hLater line rfl]
      rfl

namespace Writer

/-- A limited output holds the first bytes of what an unlimited one holds, and the writer
sees a full output exactly if those are not all the bytes. Otherwise it ends as it
would have ended: a session with a fault exactly if a line is not text, and the
answer to a line with none. -/
theorem deliver_cutOff {config : Config} {fragments : Message → List String}
    (hFragments : ∀ message, String.join (fragments message) = message.text config) :
    (∀ input room,
      (session fragments config.mode (Text.Line.split input)).deliver none =
          (run config input).deliver ∧
        (session fragments config.mode (Text.Line.split input)).deliver (some room) =
          (run config input).deliver.cutOff room ∧
        (run config input).deliverWithin room = (run config input).deliver.cutOff room) ∧
    (∀ input, ∃ (texts : List String) (later : List (List UInt8)),
      Text.Line.split input = texts.map Text.bytes ++ later ∧
        (∀ line ∈ later.head?, Text.ofBytes? line = none) ∧
        (run config input).deliver =
          ⟨(texts.flatMap (exchange config) ++ [promptText config]).flatMap Text.bytes,
            if later = [] then none else some .invalidText⟩) ∧
    (∀ line room,
      (tokens fragments (.ofString line)).deliver none =
          ⟨(listTokens config line).flatMap Text.bytes, none⟩ ∧
        (tokens fragments (.ofString line)).deliver (some room) =
          Delivery.cutOff ⟨(listTokens config line).flatMap Text.bytes, none⟩ room) ∧
    ∀ line room,
      (program fragments line).deliver none =
          ⟨(showProgram config line).flatMap Text.bytes, none⟩ ∧
        (program fragments line).deliver (some room) =
          Delivery.cutOff ⟨(showProgram config line).flatMap Text.bytes, none⟩ room := by
  refine ⟨fun input room => ?_, exists_deliver_run config, fun line room => ?_,
    fun line room => ?_⟩
  · have hSession := writes_session hFragments (Text.Line.split input)
    exact ⟨hSession.deliver_none, hSession.deliver_some room, Transcript.deliverWithin_eq _ _⟩
  · have hTokens := writes_tokens hFragments (.ofString line)
    exact ⟨hTokens.deliver_none, hTokens.deliver_some room⟩
  · have hProgram := writes_program hFragments line
    exact ⟨hProgram.deliver_none, hProgram.deliver_some room⟩

/-- The second prompt is cut off inside the opening of its style. With room for all of it the
session sees that the second line is not text. -/
theorem deliver_cutOff_inside_style :
    let config : Config := { colour := true }
    let fragments (message : Message) := (message.text config).toList.map String.singleton
    let writing := session fragments config.mode (Text.Line.split (Text.bytes "let\n" ++ [0xff]))
    let prompt := "\x1b[38;5;2m\x1b[1m>> \x1b[0m"
    let token := "\x1b[38;5;12m\x7bType:LET Literal:let\x7d\x1b[39m\n"
    writing.deliver (some 61) =
        ⟨[prompt, token, "\x1b[3"].flatMap Text.bytes, some .outputFull⟩ ∧
      writing.deliver (some 78) =
        ⟨[prompt, token, prompt].flatMap Text.bytes, some .invalidText⟩ := by
  intro config fragments writing prompt token
  have hFragments : ∀ message, String.join (fragments message) = message.text config := by
    intro message
    apply String.toList_inj.mp
    simp [fragments, String.toList_join, List.flatMap_map]
  have hRun : run { colour := true } (Text.bytes "let\n" ++ [0xff]) =
      ⟨["\x1b[38;5;2m\x1b[1m>> \x1b[0m", "\x1b[38;5;12m\x7bType:LET Literal:let\x7d\x1b[39m\n",
        "\x1b[38;5;2m\x1b[1m>> \x1b[0m"], some .invalidText⟩ := by
    decide +kernel
  have hCut (room : Nat) :=
    ((deliver_cutOff hFragments).1 (Text.bytes "let\n" ++ [0xff]) room).2.1
  refine ⟨(hCut 61).trans ?_, (hCut 78).trans ?_⟩
  · rw [show run config _ = _ from hRun]
    decide
  · rw [show run config _ = _ from hRun]
    decide

end Writer

end LetLang.Session
