import LetLang.Proofs.Cursor.Diagnostics
import LetLang.Proofs.Cursor.Machine

/-! Progress. A cursor only moves on, from one token to the next. Each step of reading an
expression lowers a weight, made of the tokens ahead and of what is left to do and waits,
so a call is done after a number of steps linear in those tokens. A statement passes its
first token at least. There are therefore no more statements and abandoned bindings than
tokens, and no more diagnostics. -/
namespace LetLang

open Lexer (isContent)

namespace Cursor

variable {α β : Type} {cursor before middle after : Cursor} {passed later : List Token}

/-- The tokens passed on the way from one cursor to another. What is recorded on the way
does not matter. -/
inductive Passes (before : Cursor) : List Token → Cursor → Prop where
  | refl : Passes before [] before
  | advance {passed : List Token} {after : Cursor} (prior : Passes before passed after) :
      Passes before (passed ++ [after.current]) after.advance
  | record {passed : List Token} {after : Cursor} (prior : Passes before passed after)
      (cause : Diagnostic) : Passes before passed (after.record cause)

theorem Passes.trans (left : before.Passes passed middle) (right : middle.Passes later after) :
    before.Passes (passed ++ later) after := by
  induction right with
  | refl => rwa [List.append_nil]
  | advance prior ih =>
      rw [← List.append_assoc]
      exact ih.advance
  | record prior cause ih => exact ih.record cause

/-- The first token passed is the one that the cursor was on. -/
theorem Passes.head?_eq (h : before.Passes passed after) :
    (passed ++ [after.current]).head? = some before.current := by
  induction h with
  | refl => rfl
  | @advance passed after prior ih =>
      rw [List.head?_append, ih]
      rfl
  | record prior cause ih => exact ih

/-- The tokens not read yet, without the ends of input among them. -/
def content (cursor : Cursor) : List Token := cursor.unread.filter isContent

/-- Past the last token of the lexer there are ends of input, which are left out. -/
theorem content_advance (cursor : Cursor) :
    cursor.content = [cursor.current].filter isContent ++ cursor.advance.content := by
  have hLast : (cursor.lexer.next.1 :: Lexer.stream cursor.lexer.next.2.ahead).filter isContent =
      (Lexer.stream cursor.lexer.ahead).filter isContent := by
    rw [Lexer.next_fst, Lexer.stream_next_snd]
    cases Lexer.stream cursor.lexer.ahead with
    | nil => rfl
    | cons token tokens => rfl
  have hAhead : cursor.advance.content =
      (cursor.ahead :: Lexer.stream cursor.lexer.ahead).filter isContent := by
    rw [List.filter_cons, ← hLast, ← List.filter_cons]
    rfl
  rw [hAhead, ← List.filter_append]
  rfl

theorem content_advance_of_ne (h : cursor.current.kind ≠ .eof) :
    cursor.content = cursor.current :: cursor.advance.content := by
  rw [content_advance, List.filter_cons_of_pos (by simpa [isContent] using h)]
  rfl

/-- To advance past a token that is no end of input leaves less. Ends of input never run
out, so nothing is said of those. -/
theorem content_advance_lt (h : cursor.current.kind ≠ .eof) :
    cursor.advance.content.length < cursor.content.length := by
  rw [content_advance_of_ne h]
  exact Nat.lt_succ_self _

/-- At the start all tokens of the source are content, the two in hand included. Ends of
input among them are not. -/
theorem content_ofString (source : String) :
    (ofString source).content = (Lexer.stream (Text.bytes source)).filter isContent := by
  have hFirst := content_advance ⟨.eof, .eof, .ofString source, []⟩
  have hSecond := content_advance (advance ⟨.eof, .eof, .ofString source, []⟩)
  exact (hFirst.trans hSecond).symm

/-- The content is what was passed, without ends of input, and what is left. No token is
skipped, put back or passed twice. -/
theorem Passes.content_eq (h : before.Passes passed after) :
    before.content = passed.filter isContent ++ after.content := by
  induction h with
  | refl => rfl
  | @advance passed after prior ih =>
      rw [ih, content_advance after, List.filter_append, List.append_assoc]
  | record prior cause ih => exact ih

/-- One cursor is on the way to another. -/
def Precedes (before after : Cursor) : Prop := ∃ passed, before.Passes passed after

theorem Precedes.refl (cursor : Cursor) : cursor.Precedes cursor := ⟨[], .refl⟩

theorem Precedes.trans (left : before.Precedes middle) (right : middle.Precedes after) :
    before.Precedes after := by
  obtain ⟨passed, hPassed⟩ := left
  obtain ⟨later, hLater⟩ := right
  exact ⟨passed ++ later, hPassed.trans hLater⟩

theorem precedes_advance (cursor : Cursor) : cursor.Precedes cursor.advance :=
  ⟨_, Passes.refl.advance⟩

theorem precedes_record (cursor : Cursor) (cause : Diagnostic) :
    cursor.Precedes (cursor.record cause) := ⟨_, Passes.refl.record cause⟩

/-- The content never grows on the way. It stays the same if only ends of input are
passed. -/
theorem Precedes.content_length_le (h : before.Precedes after) :
    after.content.length ≤ before.content.length := by
  obtain ⟨passed, hPassed⟩ := h
  rw [hPassed.content_eq, List.length_append]
  exact Nat.le_add_left _ _

theorem precedes_expect (cursor : Cursor) (kind : Kind) :
    cursor.Precedes (cursor.expect kind).cursor := by
  unfold expect
  split
  · exact precedes_advance cursor
  · exact precedes_record cursor _

/-- A semicolon ahead is passed. Any other token stays, and nothing is recorded. -/
theorem precedes_skipSemicolon (cursor : Cursor) : cursor.Precedes cursor.skipSemicolon := by
  unfold skipSemicolon
  split
  · exact precedes_advance cursor
  · exact .refl cursor

/-- A failure leaves the cursor where it is. What follows a value may move it on from
there. -/
theorem Precedes.andThen {outcome : Outcome α} {next : α → Cursor → Outcome β}
    (h : before.Precedes outcome.cursor)
    (hNext : ∀ (value : α) (last : Cursor), last.Precedes (next value last).cursor) :
    before.Precedes (outcome.andThen next).cursor := by
  unfold Outcome.andThen
  split
  · exact h.trans (hNext _ _)
  · exact h

end Cursor

/-- How many steps what is done next takes at most, if no further token is passed. -/
def Control.weight : Control → Nat
  | .expression _ => 5
  | .operand => 1
  | .operators _ _ _ => 1
  | .back _ => 0

def Frame.weight : Frame → Nat
  | .operand _ => 2
  | .fold _ _ _ _ => 2
  | _ => 1

theorem Control.weight_expression (floor : Precedence) : (expression floor).weight = 5 := rfl

theorem Control.weight_back (found : Option Expr) : (back found).weight = 0 := rfl

/-- A frame counts at least one step, that of coming back to it. -/
theorem Frame.weight_pos (frame : Frame) : 0 < frame.weight := by
  cases frame <;> simp [weight]

/-- It counts no more than two, the second for the operators behind the operand that it
waits for. -/
theorem Frame.weight_le_two (frame : Frame) : frame.weight ≤ 2 := by
  cases frame <;> simp [weight]

namespace Machine

open Cursor (Precedes expression content_advance_lt precedes_advance precedes_record
  precedes_expect)

variable {control : Control} {frame : Frame} {frames : List Frame} {cursor start : Cursor}
  {depth : Nat} {machine after : Machine}

def framesWeight : List Frame → Nat
  | [] => 0
  | frame :: frames => frame.weight + framesWeight frames

/-- An operator passed pays for its operand, which is a call and a frame. -/
def weight (machine : Machine) : Nat :=
  7 * machine.cursor.content.length + machine.control.weight + framesWeight machine.frames

/-- One machine is on the way to another, with less left to do. -/
structure Advances (before after : Machine) : Prop where
  precedes : before.cursor.Precedes after.cursor
  weight_lt : after.weight < before.weight

/-- Without a token passed there has to be less to do and to wait for. -/
theorem advances_of_weight_lt {later : Control} {others : List Frame} {level : Nat}
    (hCursor : cursor.Precedes start)
    (hWeight : later.weight + framesWeight others < control.weight + framesWeight frames) :
    Advances ⟨control, frames, cursor, depth⟩ ⟨later, others, start, level⟩ := by
  have hContent := hCursor.content_length_le
  refine ⟨hCursor, ?_⟩
  simp only [weight]
  omega

/-- What gives its answer at once, found or not, has less to do afterwards. The frames that
wait stay. -/
theorem advances_back (hControl : 0 < control.weight) (found : Option Expr)
    (hCursor : cursor.Precedes start) :
    Advances ⟨control, frames, cursor, depth⟩ ⟨.back found, frames, start, depth⟩ := by
  refine advances_of_weight_lt hCursor ?_
  rw [Control.weight_back]
  omega

/-- The frame that waited is done with. -/
theorem advances_pop {found : Option Expr} (value : Option Expr) {level : Nat}
    (hCursor : cursor.Precedes start) :
    Advances ⟨.back found, frame :: frames, cursor, depth⟩ ⟨.back value, frames, start, level⟩ := by
  have hFrame := frame.weight_pos
  refine advances_of_weight_lt hCursor ?_
  simp only [Control.weight_back, framesWeight]
  omega

/-- The frame that waited is one behind which operators are looked for. -/
theorem advances_pop_operators {found : Option Expr} (hFrame : frame.weight = 2)
    (floor : Precedence) (count : Nat) (left : Expr) :
    Advances ⟨.back found, frame :: frames, cursor, depth⟩
      ⟨.operators floor count left, frames, cursor, depth⟩ := by
  refine advances_of_weight_lt (.refl cursor) ?_
  simp only [Control.weight, framesWeight]
  omega

/-- A call inside an expression adds a frame and a whole expression to do. The token that
was passed before it pays for both. -/
theorem advances_call (hControl : 0 < control.weight) (floor : Precedence)
    (hCursor : cursor.Precedes start)
    (hContent : start.content.length < cursor.content.length) :
    Advances ⟨control, frames, cursor, depth⟩
      ⟨.expression floor, frame :: frames, start, depth⟩ := by
  have hFrame := frame.weight_le_two
  refine ⟨hCursor, ?_⟩
  simp only [weight, Control.weight_expression, framesWeight]
  omega

/-- To enter an expression passes no token and adds two frames, which weigh less than the
call did. At the limit nothing is entered. -/
theorem advances_enter (floor : Precedence) :
    Advances ⟨.expression floor, frames, cursor, depth⟩
      (enter ⟨.expression floor, frames, cursor, depth⟩ floor) := by
  have hFive : 0 < (Control.expression floor).weight := Nat.succ_pos 4
  unfold enter
  split
  · exact advances_back hFive none (precedes_record cursor _)
  · refine advances_of_weight_lt (.refl cursor) ?_
    simp only [Control.weight, framesWeight, Frame.weight]
    omega

/-- Prefix operators and parentheses are passed before their operand is called. All else
is answered at once. -/
theorem advances_startOperand :
    Advances ⟨.operand, frames, cursor, depth⟩
      (startOperand ⟨.operand, frames, cursor, depth⟩) := by
  have hGive : ∀ found, Advances ⟨.operand, frames, cursor, depth⟩
      ⟨.back found, frames, cursor, depth⟩ :=
    fun found => advances_back (by decide) found (.refl cursor)
  have hFail : ∀ cause, Advances ⟨.operand, frames, cursor, depth⟩
      ⟨.back none, frames, cursor.record cause, depth⟩ :=
    fun cause => advances_back (by decide) none (precedes_record cursor cause)
  have hCall : ∀ frame floor symbol, cursor.current.kind = .symbol symbol →
      Advances ⟨.operand, frames, cursor, depth⟩
        ⟨.expression floor, frame :: frames, cursor.advance, depth⟩ := by
    intro frame floor symbol hKind
    refine advances_call (by decide) floor (precedes_advance cursor) (content_advance_lt ?_)
    rw [hKind]
    exact Kind.noConfusion
  unfold startOperand
  split
  · exact hGive _
  · split
    · exact hGive _
    · exact hFail _
  · next hKind => exact hCall _ _ _ hKind
  · next hKind => exact hCall _ _ _ hKind
  · next hKind => exact hCall _ _ _ hKind
  · exact hFail _

/-- The operator ahead is passed when its operand is called. -/
theorem advances_startFold (floor : Precedence) (count : Nat) (left : Expr) :
    Advances ⟨.operators floor count left, frames, cursor, depth⟩
      (startFold ⟨.operators floor count left, frames, cursor, depth⟩ floor count left) := by
  have hOne : 0 < (Control.operators floor count left).weight := Nat.one_pos
  have hGive : Advances ⟨.operators floor count left, frames, cursor, depth⟩
      ⟨.back (some left), frames, cursor, depth⟩ :=
    advances_back hOne _ (.refl cursor)
  unfold startFold
  split_ifs with hBinds hFolds hCount
  · exact hGive
  · exact advances_back hOne none (precedes_record cursor _)
  · have hOperator : cursor.advance.current.kind ≠ .eof := by
      intro hEof
      have hFloor : floor < Precedence.ofKind cursor.advance.current.kind := hBinds.2
      rw [hEof] at hFloor
      exact Nat.not_lt_zero _ hFloor
    have hPassed := precedes_advance cursor
    exact advances_call hOne _ (hPassed.trans (precedes_advance _))
      (Nat.lt_of_lt_of_le (content_advance_lt hOperator) hPassed.content_length_le)
  · exact hGive

/-- To come back to a frame lowers the weight. A closing parenthesis may be passed with it,
and nothing else. -/
theorem advances_resume (frame : Frame) (found : Option Expr) :
    Advances ⟨.back found, frame :: frames, cursor, depth⟩
      (resume ⟨.back found, frames, cursor, depth⟩ frame found) := by
  unfold resume
  split
  · exact advances_pop _ (.refl cursor)
  · exact advances_pop _ (.refl cursor)
  · exact advances_pop_operators rfl _ _ _
  · exact advances_pop _ (.refl cursor)
  · exact advances_pop _ ((precedes_expect cursor _).andThen fun _ last => .refl last)
  · exact advances_pop_operators rfl _ _ _

/-- Every step lowers the weight and never moves the cursor back, whatever is to be done
next. There is no step that only waits. -/
theorem advances_of_step (h : machine.step = some after) : machine.Advances after := by
  obtain ⟨control, frames, cursor, depth⟩ := machine
  cases control with
  | expression floor =>
      obtain rfl := Option.some.inj h
      exact advances_enter floor
  | operand =>
      obtain rfl := Option.some.inj h
      exact advances_startOperand
  | operators floor count left =>
      obtain rfl := Option.some.inj h
      exact advances_startFold floor count left
  | back found =>
      cases frames with
      | nil => cases h
      | cons frame frames =>
          obtain rfl := Option.some.inj h
          exact advances_resume frame found

/-- So many steps lead from one machine to another. -/
inductive RunsFor (machine : Machine) : Machine → Nat → Prop where
  | zero : RunsFor machine machine 0
  | succ {middle after : Machine} {steps : Nat} (prior : RunsFor machine middle steps)
      (last : middle.step = some after) : RunsFor machine after (steps + 1)

theorem RunsFor.reaches {steps : Nat} (h : machine.RunsFor after steps) :
    machine.Reaches after := by
  induction h with
  | zero => exact .refl
  | succ prior last ih => exact .tail ih last

/-- A run has no more steps than units of weight are gone. A step may take more than one of
them. -/
theorem RunsFor.add_weight_le {steps : Nat} (h : machine.RunsFor after steps) :
    steps + after.weight ≤ machine.weight := by
  induction h with
  | zero => exact Nat.le_of_eq (Nat.zero_add _)
  | succ prior last ih =>
      have hLast := (advances_of_step last).weight_lt
      omega

/-- Each token that a call passes accounts for seven steps, and the call itself for five. -/
theorem RunsFor.add_content_le {floor : Precedence} {steps : Nat}
    (h : (ofCall depth floor cursor).RunsFor after steps) :
    steps + 7 * after.cursor.content.length ≤ 7 * cursor.content.length + 5 := by
  have hWeight := h.add_weight_le
  have hStart : (ofCall depth floor cursor).weight = 7 * cursor.content.length + 5 := rfl
  rw [hStart, weight] at hWeight
  omega

theorem Reaches.precedes (h : machine.Reaches after) :
    machine.cursor.Precedes after.cursor := by
  induction h with
  | refl => exact .refl _
  | tail prior last ih => exact ih.trans (advances_of_step last).precedes

end Machine

namespace Cursor

variable {cursor last : Cursor} {outcomes : List (Option Statement)}

/-- From a call to its end the cursor only moves on. That it moves at all is not said
here. -/
theorem precedes_expression (depth : Nat) (floor : Precedence) (cursor : Cursor) :
    cursor.Precedes (expression depth floor cursor).cursor :=
  (Machine.expressionRuns depth floor cursor []).precedes

theorem precedes_withValue (depth : Nat) (make : Option Expr → Statement) (cursor : Cursor) :
    cursor.Precedes (withValue depth make cursor).cursor :=
  (precedes_expression depth .lowest cursor).trans (precedes_skipSemicolon _)

/-- The same holds of a whole statement, also of one that is abandoned. -/
theorem precedes_statement (depth : Nat) (cursor : Cursor) :
    cursor.Precedes (statement depth cursor).cursor := by
  unfold statement
  split
  · refine (precedes_expect cursor .ident).andThen fun name named => ?_
    refine (precedes_expect named (.symbol .assign)).andThen fun assign bound => ?_
    exact (precedes_advance bound).trans (precedes_withValue depth _ _)
  · exact (precedes_advance cursor).trans (precedes_withValue depth _ _)
  · exact precedes_withValue depth _ cursor

/-- Wherever a statement ends, going on from there passes its first token. -/
theorem exists_passes_statement (depth : Nat) (cursor : Cursor) :
    ∃ later, cursor.Passes (cursor.current :: later) (statement depth cursor).cursor.advance := by
  obtain ⟨passed, hPassed⟩ := precedes_statement depth cursor
  obtain ⟨later, hLater⟩ := List.head?_eq_some_iff.mp hPassed.head?_eq
  refine ⟨later, ?_⟩
  rw [← hLater]
  exact hPassed.advance

/-- What is left of a cursor's tokens behind a statement. -/
theorem exists_content_eq_statement (depth : Nat) (h : cursor.current.kind ≠ .eof) :
    ∃ later, cursor.Passes (cursor.current :: later) (statement depth cursor).cursor.advance ∧
      cursor.content = cursor.current ::
        (later.filter isContent ++ (statement depth cursor).cursor.advance.content) := by
  obtain ⟨later, hPasses⟩ := exists_passes_statement depth cursor
  refine ⟨later, hPasses, ?_⟩
  rw [hPasses.content_eq, List.filter_cons_of_pos (by simpa [isContent] using h)]
  rfl

/-- A run tries no more statements than there are tokens other than ends of input, counting
those that are not kept. -/
theorem Runs.length_le (h : Runs cursor outcomes last) :
    outcomes.length ≤ cursor.content.length := by
  induction h with
  | stop hEnd => exact Nat.zero_le _
  | step hMore later ih =>
      obtain ⟨passed, -, hContent⟩ := exists_content_eq_statement 0 hMore
      rw [hContent, List.length_cons, List.length_cons, List.length_append]
      omega

/-- There is only one way to run the statements of a cursor. -/
theorem Runs.unique {others : List (Option Statement)} {other : Cursor}
    (h : Runs cursor outcomes last) (hOther : Runs cursor others other) :
    others = outcomes ∧ other = last := by
  induction h generalizing others with
  | stop hEnd =>
      cases hOther with
      | stop => exact ⟨rfl, rfl⟩
      | step hMore => exact absurd hEnd hMore
  | step hMore later ih =>
      cases hOther with
      | stop hEnd => exact absurd hEnd hMore
      | step _ hLater =>
          obtain ⟨rfl, rfl⟩ := ih hLater
          exact ⟨rfl, rfl⟩

theorem length_filterMap_add_countP_isNone (outcomes : List (Option Statement)) :
    (outcomes.filterMap id).length + outcomes.countP Option.isNone = outcomes.length := by
  induction outcomes with
  | nil => rfl
  | cons outcome outcomes ih => cases outcome <;> simp [← ih] <;> omega

/-- Reading an expression ends, from every state, after a number of steps that is linear in
the tokens it passes. A statement and the move behind it pass a token that is no end of
input. So a program is read to its end, in one way, and has no more statements and
abandoned bindings than its source has tokens, nor more of anything than its source has
bytes. -/
theorem progress_and_bounds :
    (∀ (depth : Nat) (floor : Precedence) (cursor : Cursor),
      (Machine.ofCall depth floor cursor).Reaches
        (Machine.ended (expression depth floor cursor) [] depth) ∧
      ∀ reached steps, (Machine.ofCall depth floor cursor).RunsFor reached steps →
        reached.Reaches (Machine.ended (expression depth floor cursor) [] depth) ∧
        steps + 7 * reached.cursor.content.length ≤ 7 * cursor.content.length + 5) ∧
    (∀ (depth : Nat) (cursor : Cursor), cursor.current.kind ≠ .eof →
      (∃ later, cursor.Passes (cursor.current :: later) (statement depth cursor).cursor.advance ∧
        cursor.content = cursor.current ::
          (later.filter isContent ++ (statement depth cursor).cursor.advance.content)) ∧
      ((statement depth cursor).found = none → cursor.current.kind = .keyword .letWord)) ∧
    ∀ source : String, ∃ outcomes last, Runs (ofString source) outcomes last ∧
      (ofString source).content = (Lexer.stream (Text.bytes source)).filter isContent ∧
      (∀ others other, Runs (ofString source) others other → others = outcomes ∧ other = last) ∧
      Program.parse source = (⟨outcomes.filterMap id⟩, last.diagnostics) ∧
      (Program.parse source).1.statements.length + outcomes.countP Option.isNone ≤
        ((Lexer.stream (Text.bytes source)).filter isContent).length ∧
      ((Lexer.stream (Text.bytes source)).filter isContent).length ≤ (Text.bytes source).length ∧
      (Program.parse source).1.statements.length ≤ (Text.bytes source).length ∧
      (Program.parse source).2.length ≤ (Text.bytes source).length := by
  refine ⟨fun depth floor cursor => ?_, fun depth cursor h =>
    ⟨exists_content_eq_statement depth h, kind_of_statement_eq_none⟩, fun source => ?_⟩
  · have hRun := Machine.expressionRuns depth floor cursor []
    exact ⟨hRun, fun reached steps hReached =>
      ⟨hReached.reaches.reaches_end hRun rfl, hReached.add_content_le⟩⟩
  · obtain ⟨outcomes, last, hRun, hParse⟩ := exists_runs_ofString source
    obtain ⟨recorded, hRecorded, hCount⟩ := hRun.diagnostics
    have hStatements := length_filterMap_add_countP_isNone outcomes
    have hOutcomes := hRun.length_le
    have hDiagnostics : last.diagnostics.length ≤ outcomes.length := by
      rw [hRecorded]
      exact hCount.trans_le List.countP_le_length
    have hBytes : ((Lexer.stream (Text.bytes source)).filter isContent).length ≤
        (Text.bytes source).length :=
      (List.length_filter_le _ _).trans (Lexer.stream_length_le _)
    rw [content_ofString] at hOutcomes
    refine ⟨outcomes, last, hRun, content_ofString source,
      fun others other hOther => hRun.unique hOther, hParse, ?_⟩
    rw [hParse]
    refine ⟨?_, hBytes, ?_, ?_⟩
    all_goals
      dsimp only
      omega

end Cursor

end LetLang
