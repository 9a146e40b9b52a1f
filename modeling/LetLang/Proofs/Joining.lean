import LetLang.Command
import LetLang.Proofs.Grammar.Acceptance
import LetLang.Proofs.Token.Relexing

/-! Joining lines. Sources without diagnostics can be put one behind another on
lines of their own: each keeps its statements, unless the next one starts with a
minus, which would continue the statement before it. A file is therefore
answered as a session answers its lines. -/
namespace LetLang

namespace Script

theorem tokens_append (first second : Script) :
    tokens ⟨first.sentences ++ second.sentences⟩ = first.tokens ++ second.tokens :=
  List.flatMap_append

/-- Scripts follow one another if the first sentence of the second cannot
continue the last of the first. -/
theorem Grammatical.append {first second : Script} (hFirst : first.Grammatical)
    (hSecond : second.Grammatical)
    (hMinus : ∀ next ∈ second.sentences.head?, next.first ≠ .ofSymbol .minus) :
    Grammatical ⟨first.sentences ++ second.sentences⟩ where
  values := by
    intro sentence hSentence
    rcases List.mem_append.mp hSentence with hSentence | hSentence
    · exact hFirst.values sentence hSentence
    · exact hSecond.values sentence hSentence
  separated :=
    hFirst.separated.append hSecond.separated fun _ _ next hNext _ => hMinus next hNext

theorem WithinLimit.append {first second : Script} (hFirst : first.WithinLimit)
    (hSecond : second.WithinLimit) : WithinLimit ⟨first.sentences ++ second.sentences⟩ := by
  intro sentence hSentence
  rcases List.mem_append.mp hSentence with hSentence | hSentence
  · exact hFirst sentence hSentence
  · exact hSecond sentence hSentence

end Script

namespace Lexer

/-- A line feed separates tokens, and is none. -/
theorem stream_append_newline (before after : String) :
    stream (Text.bytes (before ++ "\n" ++ after)) =
      stream (Text.bytes before) ++ stream (Text.bytes after) := by
  have hBreak (rest : List UInt8) : stream (Text.bytes before ++ 0x0a :: rest) =
      stream (Text.bytes before) ++ stream (0x0a :: rest) := stream_append_break _ (by decide) rest
  rw [Text.bytes_append, Text.bytes_append, List.append_assoc,
    ← stream_newline_append (Text.bytes after)]
  exact hBreak (Text.bytes after)

/-- A source with a token starts with it also if lines follow. -/
theorem next_append_newline {before : String} (h : (ofString before).next.1.kind ≠ .eof)
    (after : String) : (ofString (before ++ "\n" ++ after)).next.1 = (ofString before).next.1 := by
  rw [next_ofString] at h
  rw [next_ofString, next_ofString, stream_append_newline]
  cases hStream : stream (Text.bytes before) with
  | nil => simp [hStream, Token.eof] at h
  | cons token rest => rfl

end Lexer

namespace Program

/-- Without NUL characters the script of a source takes up all its tokens. -/
theorem exists_script_of_notMem_nul {source : String} (hNul : '\x00' ∉ source.toList)
    (h : (parse source).2 = []) :
    ∃ script : Script, script.Grammatical ∧ script.WithinLimit ∧
      Lexer.stream (Text.bytes source) = script.tokens ∧ script.tree = (parse source).1 := by
  obtain ⟨script, rest, hScript, hLimit, hTokens, hRest, hTree⟩ :=
    exists_script_of_parse (Prod.ext rfl h : parse source = ((parse source).1, []))
  obtain rfl : rest = [] := by
    cases rest with
    | nil => rfl
    | cons token rest =>
        have hMem : token ∈ Lexer.stream (Text.bytes source) :=
          hTokens ▸ List.mem_append_right _ List.mem_cons_self
        exact absurd (hRest token rfl)
          (Lexer.kind_ne_eof_of_mem_stream (mt (Text.zero_mem_bytes_iff source).mp hNul) hMem)
  exact ⟨script, hScript, hLimit, hTokens.trans (List.append_nil _), hTree⟩

/-- The script of a source starts with the first token of the source. -/
theorem head?_first_ne_minus {source : String} {script : Script} {rest : List Token}
    (hTokens : Lexer.stream (Text.bytes source) = script.tokens ++ rest)
    (hMinus : (Lexer.ofString source).next.1.kind ≠ .symbol .minus) :
    ∀ first ∈ script.sentences.head?, first.first ≠ .ofSymbol .minus := by
  obtain ⟨sentences⟩ := script
  intro sentence hSentence hFirst
  obtain ⟨later, rfl⟩ := List.head?_eq_some_iff.mp hSentence
  obtain ⟨tail, hTail⟩ := sentence.tokens_eq_first_cons
  apply hMinus
  rw [Lexer.next_ofString, hTokens, Script.tokens_cons, hTail, hFirst]
  rfl

/-- Of two sources without diagnostics the second can stand on the line after
the first, unless it starts with a minus or the first is cut off by a NUL. -/
theorem parse_append_newline {before after : String} (hNul : '\x00' ∉ before.toList)
    (hBefore : (parse before).2 = []) (hAfter : (parse after).2 = [])
    (hMinus : (Lexer.ofString after).next.1.kind ≠ .symbol .minus) :
    parse (before ++ "\n" ++ after) =
      (⟨(parse before).1.statements ++ (parse after).1.statements⟩, []) := by
  obtain ⟨first, hFirst, hFirstLimit, hFirstTokens, hFirstTree⟩ :=
    exists_script_of_notMem_nul hNul hBefore
  obtain ⟨second, rest, hSecond, hSecondLimit, hSecondTokens, hRest, hSecondTree⟩ :=
    exists_script_of_parse (Prod.ext rfl hAfter : parse after = ((parse after).1, []))
  have hJoined := hFirst.append hSecond (head?_first_ne_minus hSecondTokens hMinus)
  have hAll := Script.readAll_tokens hJoined (hFirstLimit.append hSecondLimit) hRest
  rw [Script.tokens_append, List.append_assoc, ← hFirstTokens, ← hSecondTokens,
    ← Lexer.stream_append_newline] at hAll
  rw [parse_of_complete hAll, ← hFirstTree, ← hSecondTree]
  simp [Script.tree]

/-- A source without diagnostics that has a token has a statement. -/
theorem statements_ne_nil {source : String} (hParsed : (parse source).2 = [])
    (hToken : (Lexer.ofString source).next.1.kind ≠ .eof) : (parse source).1.statements ≠ [] := by
  obtain ⟨script, rest, -, -, hTokens, hRest, hTree⟩ :=
    exists_script_of_parse (Prod.ext rfl hParsed : parse source = ((parse source).1, []))
  obtain ⟨sentences⟩ := script
  rw [← hTree]
  cases sentences with
  | cons sentence later => exact List.cons_ne_nil _ _
  | nil =>
      rw [Lexer.next_ofString, hTokens] at hToken
      exact absurd hRest.kind_headD hToken

/-- Lines that can be parsed together: each has a token and no NUL, is parsed
without diagnostics, and starts with no minus unless it is the first. -/
structure Joinable (lines : List String) : Prop where
  noNul : ∀ line ∈ lines, '\x00' ∉ line.toList
  token : ∀ line ∈ lines, (Lexer.ofString line).next.1.kind ≠ .eof
  parsed : ∀ line ∈ lines, (parse line).2 = []
  noMinus : ∀ line ∈ lines.tail, (Lexer.ofString line).next.1.kind ≠ .symbol .minus

theorem Joinable.tail {line : String} {later : List String} (h : Joinable (line :: later)) :
    Joinable later where
  noNul := fun next hNext => h.noNul next (List.mem_cons_of_mem _ hNext)
  token := fun next hNext => h.token next (List.mem_cons_of_mem _ hNext)
  parsed := fun next hNext => h.parsed next (List.mem_cons_of_mem _ hNext)
  noMinus := fun next hNext => h.noMinus next (List.mem_of_mem_tail hNext)

/-- Joined lines start with the first token of the first line, provided that it has one. -/
theorem next_intercalate {line : String} (h : (Lexer.ofString line).next.1.kind ≠ .eof)
    (later : List String) :
    (Lexer.ofString ("\n".intercalate (line :: later))).next.1 = (Lexer.ofString line).next.1 := by
  cases later with
  | nil => rw [String.intercalate_singleton]
  | cons next later => rw [String.intercalate_cons_cons, Lexer.next_append_newline h]

/-- The statements of joined lines are those of the lines, in order. -/
theorem parse_intercalate {lines : List String} (hLines : lines ≠ []) (h : Joinable lines) :
    parse ("\n".intercalate lines) =
      (⟨lines.flatMap fun line => (parse line).1.statements⟩, []) := by
  induction lines with
  | nil => exact absurd rfl hLines
  | cons line later ih =>
      have hLine := h.parsed line List.mem_cons_self
      cases later with
      | nil =>
          rw [String.intercalate_singleton, List.flatMap_singleton]
          exact Prod.ext rfl hLine
      | cons next later =>
          have hLater := ih (List.cons_ne_nil _ _) h.tail
          have hNext := h.token next (List.mem_cons_of_mem _ List.mem_cons_self)
          have hMinus := h.noMinus next List.mem_cons_self
          rw [String.intercalate_cons_cons, parse_append_newline
            (h.noNul line List.mem_cons_self) hLine (congrArg Prod.snd hLater)
            (by rwa [next_intercalate hNext]), hLater]
          rfl

/-- The text of statements put together is the two texts with a line end between them.
Neither may be empty, or there would be no line end. -/
theorem render_append {first second : List Statement} (hFirst : first ≠ [])
    (hSecond : second ≠ []) :
    render ⟨first ++ second⟩ = render ⟨first⟩ ++ "\n" ++ render ⟨second⟩ := by
  rw [render, List.map_append]
  exact String.intercalate_append_of_ne_nil (by simpa using hFirst) (by simpa using hSecond)

/-- Programs written one after another, each with a line end, are one program
written with a line end, if none of them is empty. -/
theorem join_render {programs : List Program} (hPrograms : programs ≠ [])
    (hStatements : ∀ program ∈ programs, program.statements ≠ []) :
    String.join (programs.map fun program => program.render ++ "\n") =
      render ⟨programs.flatMap Program.statements⟩ ++ "\n" := by
  induction programs with
  | nil => exact absurd rfl hPrograms
  | cons program later ih =>
      cases later with
      | nil => simp
      | cons next later =>
          have hLater := ih (List.cons_ne_nil _ _)
            fun other hOther => hStatements other (List.mem_cons_of_mem _ hOther)
          have hNext := hStatements next (List.mem_cons_of_mem _ List.mem_cons_self)
          have hRender : render ⟨(program :: next :: later).flatMap Program.statements⟩ =
              program.render ++ "\n" ++ render ⟨(next :: later).flatMap Program.statements⟩ :=
            render_append (hStatements program List.mem_cons_self)
              (List.append_ne_nil_of_left_ne_nil hNext _)
          rw [List.map_cons, String.join_cons, hLater, hRender]
          simp only [String.append_assoc]

end Program

theorem Session.showProgram_of_parse {line : String} (h : (Program.parse line).2 = [])
    (config : Config) : showProgram config line = [(Program.parse line).1.render ++ "\n"] := by
  rw [showProgram, (Prod.ext rfl h : Program.parse line = ((Program.parse line).1, []))]

/-- A file with the bytes of a source without diagnostics is answered with its canonical
text. -/
theorem Command.processFile_of_parse {source : String} {program : Program}
    (h : Program.parse source = (program, [])) (name : String) :
    processFile name (.ok (Text.bytes source)) = .success (program.render ++ "\n") := by
  rw [processFile, Text.ofBytes?_bytes]
  simp only [processSource, h]

/-- A file is answered as its lines are. If each line has a token and no NUL and is
parsed without diagnostics, and none but the first starts with a minus, then
the whole is parsed as the statements of the lines in order, and the command
ends well and prints of the file what a session prints of the lines. -/
theorem Command.parse_and_processFile_intercalate {lines : List String} (hLines : lines ≠ [])
    (hJoinable : Program.Joinable lines) (config : Session.Config) (name : String) :
    Program.parse ("\n".intercalate lines) =
        (⟨lines.flatMap fun line => (Program.parse line).1.statements⟩, []) ∧
      (processFile name (.ok (Text.bytes ("\n".intercalate lines)))).exitCode = 0 ∧
      (processFile name (.ok (Text.bytes ("\n".intercalate lines)))).stdout =
        String.join (lines.flatMap (Session.showProgram config)) ∧
      (processFile name (.ok (Text.bytes ("\n".intercalate lines)))).stderr = "" := by
  have hParse := Program.parse_intercalate hLines hJoinable
  have hShown : lines.flatMap (Session.showProgram config) =
      (lines.map fun line => (Program.parse line).1).map fun program => program.render ++ "\n" := by
    rw [List.map_map, ← List.flatMap_pure_eq_map]
    exact List.flatMap_congr fun line hLine =>
      Session.showProgram_of_parse (hJoinable.parsed line hLine) config
  have hStatements : ∀ program ∈ lines.map fun line => (Program.parse line).1,
      program.statements ≠ [] := by
    intro program hProgram
    obtain ⟨line, hLine, rfl⟩ := List.mem_map.mp hProgram
    exact Program.statements_ne_nil (hJoinable.parsed line hLine) (hJoinable.token line hLine)
  have hWritten : Program.render ⟨lines.flatMap fun line => (Program.parse line).1.statements⟩ ++ "\n" =
      String.join (lines.flatMap (Session.showProgram config)) := by
    rw [hShown, Program.join_render (by simpa using hLines) hStatements, List.flatMap_map]
  rw [processFile_of_parse hParse]
  exact ⟨hParse, rfl, hWritten, rfl⟩

/-- Only the first of these lines starts with a minus, and two end without a semicolon. -/
theorem Command.parse_and_processFile_three_lines :
    Program.parse "-x\nlet y = 1;\nreturn x + y" =
        (⟨["-x", "let y = 1;", "return x + y"].flatMap fun line =>
          (Program.parse line).1.statements⟩, []) ∧
      (processFile "three" (.ok (Text.bytes "-x\nlet y = 1;\nreturn x + y"))).exitCode = 0 ∧
      (processFile "three" (.ok (Text.bytes "-x\nlet y = 1;\nreturn x + y"))).stdout =
        "(-x)\nlet y = 1;\nreturn (x + y);\n" ∧
      (processFile "three" (.ok (Text.bytes "-x\nlet y = 1;\nreturn x + y"))).stderr = "" := by
  have hJoined : "\n".intercalate ["-x", "let y = 1;", "return x + y"] =
      "-x\nlet y = 1;\nreturn x + y" := by decide
  have hShown :
      String.join (["-x", "let y = 1;", "return x + y"].flatMap (Session.showProgram {})) =
        "(-x)\nlet y = 1;\nreturn (x + y);\n" := by decide +kernel
  have hJoinable : Program.Joinable ["-x", "let y = 1;", "return x + y"] := by
    refine ⟨by decide, by decide, ?_, by decide⟩
    intro line hLine
    fin_cases hLine <;> decide +kernel
  rw [← hJoined, ← hShown]
  exact parse_and_processFile_intercalate (by decide) hJoinable {} "three"

end LetLang
