import Mathlib.Logic.Relation
import LetLang.Proofs.Cursor.Reading

/-! Reading an expression one step at a time, with the depth of nesting as part of the
state. To start an expression raises the depth, and leaves a frame that lowers it again
whatever comes of the expression. After every step the depth is that of the start and one
more for each such frame, and it is never above the limit, so neither is it in any state
that a call goes through. A call always ends, with what a cursor finds at that depth. -/
namespace LetLang

/-- What waits for the expression that is being read. -/
inductive Frame where
  /-- The depth is lowered again. -/
  | leave
  /-- Operators are folded into the operand. -/
  | operand (floor : Precedence)
  | unary (operator : Token)
  /-- A group has to be closed. -/
  | group
  /-- The operator gets its right operand, and folding goes on. -/
  | fold (floor : Precedence) (count : Nat) (operator : Token) (left : Expr)
deriving DecidableEq

namespace Frame

def isLeave : Frame → Bool
  | leave => true
  | _ => false

end Frame

/-- What is done next. -/
inductive Control where
  | expression (floor : Precedence)
  | operand
  | operators (floor : Precedence) (count : Nat) (left : Expr)
  /-- What was found, if anything, goes to the frame that waits for it. -/
  | back (found : Option Expr)
deriving DecidableEq

/-- A cursor with its depth, what is done next and, innermost first, what waits. -/
structure Machine where
  control : Control
  frames : List Frame
  cursor : Cursor
  depth : Nat
deriving DecidableEq

namespace Machine

open Cursor (Outcome expression operand operators)

/-- A call of the expression reader, with nothing that waits for it. -/
def ofCall (depth : Nat) (floor : Precedence) (cursor : Cursor) : Machine :=
  ⟨.expression floor, [], cursor, depth⟩

def give (machine : Machine) (value : Expr) : Machine :=
  { machine with control := .back (some value) }

def fail (machine : Machine) (cause : Diagnostic) : Machine :=
  { machine with control := .back none, cursor := machine.cursor.record cause }

/-- Read an expression from another token on, with a frame that waits for it. -/
def call (machine : Machine) (frame : Frame) (floor : Precedence) (start : Cursor) : Machine :=
  { machine with control := .expression floor, frames := frame :: machine.frames, cursor := start }

def enter (machine : Machine) (floor : Precedence) : Machine :=
  if machine.depth ≥ Expr.nestingLimit then machine.fail .tooDeep
  else
    { machine with
      control := .operand
      frames := .operand floor :: .leave :: machine.frames
      depth := machine.depth + 1 }

def startOperand (machine : Machine) : Machine :=
  match machine.cursor.current.kind with
  | .ident => machine.give (.name (.ofToken machine.cursor.current))
  | .int =>
      match Numeral.value? machine.cursor.current.literal with
      | some value => machine.give (.integer machine.cursor.current value)
      | none => machine.fail (.badInteger machine.cursor.current.literal)
  | .symbol .bang | .symbol .minus =>
      machine.call (.unary machine.cursor.current) .unary machine.cursor.advance
  | .symbol .openParen => machine.call .group .lowest machine.cursor.advance
  | kind => machine.fail (.noOperand kind)

/-- Start the right operand of the operator ahead, or be done with folding. -/
def startFold (machine : Machine) (floor : Precedence) (count : Nat) (left : Expr) : Machine :=
  if machine.cursor.ahead.kind ≠ .symbol .semicolon ∧
      floor < Precedence.ofKind machine.cursor.ahead.kind then
    if Cursor.folds machine.cursor.ahead.kind = false then machine.give left
    else if machine.depth + count ≥ Expr.nestingLimit then machine.fail .tooDeep
    else
      machine.call (.fold floor count machine.cursor.ahead left)
        (Precedence.ofKind machine.cursor.ahead.kind) machine.cursor.advance.advance
  else machine.give left

def closeGroup (machine : Machine) (inner : Expr) : Machine :=
  let closed := (machine.cursor.expect (.symbol .closeParen)).andThen fun _ last =>
    ⟨some inner, last⟩
  { machine with control := .back closed.found, cursor := closed.cursor }

/-- Give to a frame what it waited for. With nothing found there is nothing to do for
it, except to lower the depth. -/
def resume (machine : Machine) : Frame → Option Expr → Machine
  | .leave, found => { machine with control := .back found, depth := machine.depth - 1 }
  | _, none => { machine with control := .back none }
  | .operand floor, some left => { machine with control := .operators floor 0 left }
  | .unary operator, some right => machine.give (.unary operator operator.literal right)
  | .group, some inner => machine.closeGroup inner
  | .fold floor count operator left, some right =>
      { machine with
        control := .operators floor (count + 1) (.binary operator left operator.literal right) }

/-- One step. With nothing left that waits, what was found is the result. -/
def step (machine : Machine) : Option Machine :=
  match machine.control, machine.frames with
  | .expression floor, _ => some (machine.enter floor)
  | .operand, _ => some machine.startOperand
  | .operators floor count left, _ => some (machine.startFold floor count left)
  | .back _, [] => none
  | .back found, frame :: frames => some ({ machine with frames }.resume frame found)

def Reaches : Machine → Machine → Prop :=
  Relation.ReflTransGen fun before after => before.step = some after

/-- How often the depth will be lowered again. -/
def openExpressions : List Frame → Nat
  | [] => 0
  | .leave :: frames => openExpressions frames + 1
  | _ :: frames => openExpressions frames

theorem openExpressions_cons {frame : Frame} (hFrame : frame.isLeave = false)
    (frames : List Frame) : openExpressions (frame :: frames) = openExpressions frames := by
  cases frame with
  | leave => cases hFrame
  | _ => rfl

/-- The depth is the one at the start and one for each expression that is open. -/
structure Balanced (base : Nat) (machine : Machine) : Prop where
  depth_eq : machine.depth = base + openExpressions machine.frames
  depth_le : machine.depth ≤ Expr.nestingLimit

variable {base : Nat} {machine after : Machine}

theorem Balanced.give (h : machine.Balanced base) (value : Expr) :
    (machine.give value).Balanced base := ⟨h.depth_eq, h.depth_le⟩

theorem Balanced.fail (h : machine.Balanced base) (cause : Diagnostic) :
    (machine.fail cause).Balanced base := ⟨h.depth_eq, h.depth_le⟩

/-- A call is still to be entered; the depth is raised then, not here. -/
theorem Balanced.call (h : machine.Balanced base) {frame : Frame} (hFrame : frame.isLeave = false)
    (floor : Precedence) (start : Cursor) : (machine.call frame floor start).Balanced base :=
  ⟨h.depth_eq.trans (congrArg (base + ·) (openExpressions_cons hFrame _).symm), h.depth_le⟩

/-- The depth is raised only below the limit, and with it goes the frame that lowers it
again. -/
theorem Balanced.enter (h : machine.Balanced base) (floor : Precedence) :
    (machine.enter floor).Balanced base := by
  unfold Machine.enter
  split
  · exact h.fail .tooDeep
  · next hDepth => exact ⟨congrArg (· + 1) h.depth_eq, Nat.lt_of_not_ge hDepth⟩

theorem Balanced.startOperand (h : machine.Balanced base) :
    machine.startOperand.Balanced base := by
  unfold Machine.startOperand
  split
  · exact h.give _
  · split
    · exact h.give _
    · exact h.fail _
  · exact h.call rfl _ _
  · exact h.call rfl _ _
  · exact h.call rfl _ _
  · exact h.fail _

/-- Folds count against the limit too, but do not raise the depth. -/
theorem Balanced.startFold (h : machine.Balanced base) (floor : Precedence) (count : Nat)
    (left : Expr) : (machine.startFold floor count left).Balanced base := by
  unfold Machine.startFold
  split_ifs
  · exact h.give left
  · exact h.fail .tooDeep
  · exact h.call rfl _ _
  · exact h.give left

/-- Only the frame that an expression left when it was started lowers the depth. -/
theorem Balanced.resume {frame : Frame} {frames : List Frame}
    (h : machine.Balanced base) (hFrames : machine.frames = frame :: frames)
    (found : Option Expr) : ({ machine with frames }.resume frame found).Balanced base := by
  obtain ⟨hDepth, hLimit⟩ := h
  rw [hFrames] at hDepth
  cases frame with
  | leave => exact ⟨congrArg (· - 1) hDepth, Nat.le_trans (Nat.sub_le _ 1) hLimit⟩
  | _ => cases found <;> exact ⟨hDepth, hLimit⟩

/-- No step unbalances the depth. Only the step into an expression and the one out of it
change it at all. -/
theorem Balanced.step (h : machine.Balanced base) (hStep : machine.step = some after) :
    after.Balanced base := by
  unfold Machine.step at hStep
  split at hStep
  · obtain rfl := Option.some.inj hStep
    exact h.enter _
  · obtain rfl := Option.some.inj hStep
    exact h.startOperand
  · obtain rfl := Option.some.inj hStep
    exact h.startFold _ _ _
  · cases hStep
  · next hFrames =>
      obtain rfl := Option.some.inj hStep
      exact h.resume hFrames _

/-- Nor does any number of steps, so the depth is right in every state on the way and not
just when a call is done. -/
theorem Balanced.reaches (h : machine.Balanced base) (hRun : machine.Reaches after) :
    after.Balanced base := by
  induction hRun with
  | refl => exact h
  | tail hPrior hLast ih => exact ih.step hLast

/-- There is only one way on, so what a machine reaches is on the way to where it ends. -/
theorem Reaches.reaches_end {reached last : Machine} (hReached : machine.Reaches reached)
    (hLast : machine.Reaches last) (hEnd : last.step = none) : reached.Reaches last := by
  induction hReached with
  | refl => exact hLast
  | @tail middle reached hPrior hStep ih =>
      rcases Relation.ReflTransGen.cases_head ih with rfl | ⟨next, hNext, hLater⟩
      · rw [hEnd] at hStep
        cases hStep
      · rw [hStep] at hNext
        obtain rfl := Option.some.inj hNext
        exact hLater

/-- A machine whose innermost expression has come to its end. -/
def ended (outcome : Outcome Expr) (frames : List Frame) (depth : Nat) : Machine :=
  ⟨.back outcome.found, frames, outcome.cursor, depth⟩

/-- A call runs to what the cursor finds, and the depth is as before. -/
def ExpressionRuns (depth : Nat) (floor : Precedence) (cursor : Cursor) : Prop :=
  ∀ frames, Reaches ⟨.expression floor, frames, cursor, depth⟩
    (ended (expression depth floor cursor) frames depth)

def OperandRuns (depth : Nat) (cursor : Cursor) : Prop :=
  ∀ frames, Reaches ⟨.operand, frames, cursor, depth⟩ (ended (operand depth cursor) frames depth)

def OperatorsRun (depth : Nat) (floor : Precedence) (count : Nat) (left : Expr)
    (cursor : Cursor) : Prop :=
  ∀ frames, Reaches ⟨.operators floor count left, frames, cursor, depth⟩
    (ended (operators depth floor count left cursor) frames depth)

variable {frames : List Frame} {cursor : Cursor} {depth : Nat}

theorem reaches_of_step {last : Machine} (hStep : machine.step = some after)
    (hLater : after.Reaches last) : machine.Reaches last := .head hStep hLater

/-- What is found goes to the frame that waits for it, and what that leads to is the
end. With nothing found the frame has nothing to do. -/
theorem Reaches.andThen {outcome : Outcome Expr} {frame : Frame}
    {next : Expr → Cursor → Outcome Expr}
    (h : machine.Reaches (ended outcome (frame :: frames) depth)) (hFrame : frame.isLeave = false)
    (hNext : ∀ value last, (resume ⟨.back (some value), frames, last, depth⟩ frame
      (some value)).Reaches (ended (next value last) frames depth)) :
    machine.Reaches (ended (outcome.andThen next) frames depth) := by
  obtain ⟨found, last⟩ := outcome
  refine h.trans (reaches_of_step rfl ?_)
  cases found with
  | some value => exact hNext value last
  | none =>
      cases frame with
      | leave => cases hFrame
      | _ => exact .refl

/-- An operand of one token, or none, is done with in one step. -/
theorem operandRuns_of_startOperand (hDone : ∀ frames,
    startOperand ⟨.operand, frames, cursor, depth⟩ = ended (operand depth cursor) frames depth) :
    OperandRuns depth cursor := by
  intro frames
  refine reaches_of_step rfl ?_
  rw [hDone]
  exact .refl

/-- Folding that stops, for good or at the limit, is done with in one step. -/
theorem operatorsRun_of_startFold {floor : Precedence} {count : Nat} {left : Expr}
    (hDone : ∀ frames, startFold ⟨.operators floor count left, frames, cursor, depth⟩
      floor count left = ended (operators depth floor count left cursor) frames depth) :
    OperatorsRun depth floor count left cursor := by
  intro frames
  refine reaches_of_step rfl ?_
  rw [hDone]
  exact .refl

/-- At the limit a call fails without a look at its tokens. -/
theorem expressionRuns_of_limit {floor : Precedence} (hDepth : depth ≥ Expr.nestingLimit) :
    ExpressionRuns depth floor cursor := by
  intro frames
  refine reaches_of_step rfl ?_
  rw [expression, if_pos hDepth, enter, if_pos hDepth]
  exact .refl

/-- An expression runs if its operand does, and the operators behind it. Both are one level
deeper, and the last step comes back up. -/
theorem expressionRuns_of_operand {floor : Precedence} (hDepth : ¬ depth ≥ Expr.nestingLimit)
    (hOperand : OperandRuns (depth + 1) cursor)
    (hOperators : ∀ left cursor, OperatorsRun (depth + 1) floor 0 left cursor) :
    ExpressionRuns depth floor cursor := by
  intro frames
  refine reaches_of_step rfl ?_
  rw [expression, if_neg hDepth, enter, if_neg hDepth]
  have hRun : Reaches ⟨.operand, .operand floor :: .leave :: frames, cursor, depth + 1⟩ _ :=
    (hOperand _).andThen rfl fun left last => hOperators left last _
  exact hRun.trans (reaches_of_step rfl .refl)

/-- Folding runs if the right operand does, at the same depth, and the folds behind it with
one more on the count. -/
theorem operatorsRun_of_binds {floor : Precedence} {count : Nat} {left : Expr}
    (hBinds : cursor.ahead.kind ≠ .symbol .semicolon ∧
      floor < Precedence.ofKind cursor.ahead.kind)
    (hFolds : ¬ Cursor.folds cursor.ahead.kind = false)
    (hCount : ¬ depth + count ≥ Expr.nestingLimit)
    (hRight : ExpressionRuns depth (Precedence.ofKind cursor.ahead.kind) cursor.advance.advance)
    (hLater : ∀ right last, OperatorsRun depth floor (count + 1)
      (.binary cursor.ahead left cursor.ahead.literal right) last) :
    OperatorsRun depth floor count left cursor := by
  intro frames
  refine reaches_of_step rfl ?_
  rw [operators, if_pos hBinds, if_neg hFolds, if_neg hCount]
  simp only [startFold]
  rw [if_pos hBinds, if_neg hFolds, if_neg hCount]
  exact (hRight _).andThen rfl fun right last => hLater right last frames

/-- A prefix operator waits for an operand that binds tighter than any binary operator. -/
theorem operandRuns_of_unary {symbol : Symbol} (hKind : cursor.current.kind = .symbol symbol)
    (hSymbol : symbol ∈ Symbol.unaryOperators)
    (hRight : ExpressionRuns depth .unary cursor.advance) : OperandRuns depth cursor := by
  intro frames
  refine reaches_of_step rfl ?_
  rw [operand, startOperand, hKind]
  rcases List.mem_cons.mp hSymbol with rfl | hMinus
  · exact (hRight _).andThen rfl fun right last => .refl
  · obtain rfl := List.mem_singleton.mp hMinus
    exact (hRight _).andThen rfl fun right last => .refl

theorem operandRuns_of_group (hKind : cursor.current.kind = .symbol .openParen)
    (hInner : ExpressionRuns depth .lowest cursor.advance) : OperandRuns depth cursor := by
  intro frames
  refine reaches_of_step rfl ?_
  rw [operand, startOperand, hKind]
  exact (hInner _).andThen rfl fun inner last => .refl

/-- Every call runs to its end with what the cursor finds, whatever waits for it. By
induction along the recursion of the cursor. -/
theorem expressionRuns (depth : Nat) (floor : Precedence) (cursor : Cursor) :
    ExpressionRuns depth floor cursor := by
  induction depth, floor, cursor using
    @Cursor.expression.induct _ OperatorsRun OperandRuns with
  | case1 depth floor cursor hDepth => exact expressionRuns_of_limit hDepth
  | case2 depth floor cursor hDepth hOperand hOperators =>
      exact expressionRuns_of_operand hDepth hOperand hOperators
  | case3 depth floor count left cursor hBinds hFolds =>
      refine operatorsRun_of_startFold fun frames => ?_
      rw [operators, startFold, if_pos hBinds, if_pos hFolds, if_pos hBinds, if_pos hFolds]
      rfl
  | case4 depth floor count left cursor hBinds hFolds hCount =>
      refine operatorsRun_of_startFold fun frames => ?_
      rw [operators, startFold, if_pos hBinds, if_neg hFolds, if_pos hCount, if_pos hBinds,
        if_neg hFolds, if_pos hCount]
      rfl
  | case5 depth floor count left cursor hBinds hFolds hCount hRight hLater =>
      exact operatorsRun_of_binds hBinds hFolds hCount hRight hLater
  | case6 depth floor count left cursor hStops =>
      refine operatorsRun_of_startFold fun frames => ?_
      rw [operators, startFold, if_neg hStops, if_neg hStops]
      rfl
  | case7 depth cursor hKind =>
      refine operandRuns_of_startOperand fun frames => ?_
      rw [operand, startOperand, hKind]
      rfl
  | case8 depth cursor hKind value hValue =>
      refine operandRuns_of_startOperand fun frames => ?_
      simp only [operand, startOperand, hKind, hValue]
      rfl
  | case9 depth cursor hKind hValue =>
      refine operandRuns_of_startOperand fun frames => ?_
      simp only [operand, startOperand, hKind, hValue]
      rfl
  | case10 depth cursor hKind hRight => exact operandRuns_of_unary hKind (by decide) hRight
  | case11 depth cursor hKind hRight => exact operandRuns_of_unary hKind (by decide) hRight
  | case12 depth cursor hKind hInner => exact operandRuns_of_group hKind hInner
  | case13 depth cursor hIdent hInt hBang hMinus hOpen =>
      have hOperand : operand depth cursor =
          ⟨none, cursor.record (.noOperand cursor.current.kind)⟩ := by
        rw [operand]
        split <;> first | contradiction | rfl
      refine operandRuns_of_startOperand fun frames => ?_
      rw [hOperand, startOperand]
      split <;> first | contradiction | rfl

end Machine

end LetLang
