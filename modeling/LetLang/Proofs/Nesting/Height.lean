import LetLang.Proofs.Cursor.Machine
import LetLang.Proofs.Nesting

/-! Depth and height. However an expression is read, the depth comes back to where it
was, and the tree is no taller than the levels left at that depth can make it: an operand
and a fold for each level, summed up over the levels. Any tokens are considered here, not
only those that a source can hold. The sum is reached, by a group in each operand and as
many additions behind each group as there are levels left. -/
namespace LetLang

theorem Reading.eq_found_of_value? {α : Type} {reading : Reading α} {value : α}
    (h : reading.value? = some value) : ∃ rest, reading = .found value rest := by
  cases reading with
  | failed cause rest => cases h
  | found found rest =>
      obtain rfl := Option.some.inj h
      exact ⟨rest, rfl⟩

namespace Expr

variable {levels : Nat} {tokens rest : List Token} {tree : Expr}

/-- What is read with so many levels is no taller than an operand with as many of them
inside. If it may not be followed by operators, a unary operator still fits on it. -/
def BoundsHeight (levels : Nat) : Prop :=
  ∀ (floor : Precedence) (tokens rest : List Token) (tree : Expr),
    read levels floor tokens = .found tree rest →
      tree.height ≤ operandHeight levels ∧
        (floor = .unary → tree.height + 1 ≤ operandHeight levels)

/-- An operand is no taller than its levels allow. A group is as tall as what is in it, and
a unary operator adds a node. -/
theorem height_readOperand_le (hNested : BoundsHeight levels)
    (h : readOperand (read levels) tokens = .found tree rest) :
    tree.height ≤ operandHeight levels := by
  have hLeaf := one_le_operandHeight levels
  cases tokens with
  | nil => cases h
  | cons token tokens =>
      simp only [readOperand] at h
      split at h
      · obtain ⟨rfl, rfl⟩ := Reading.found.inj h
        exact hLeaf
      · split at h
        · obtain ⟨rfl, rfl⟩ := Reading.found.inj h
          exact hLeaf
        · cases h
      · obtain ⟨operand, hRead, rfl⟩ := Reading.map_eq_found h
        have hOperand := (hNested _ _ _ _ hRead).2 rfl
        rwa [height, Nat.add_comm]
      · obtain ⟨operand, hRead, rfl⟩ := Reading.map_eq_found h
        have hOperand := (hNested _ _ _ _ hRead).2 rfl
        rwa [height, Nat.add_comm]
      · obtain ⟨inner, behind, hRead, hClose⟩ := Reading.andThen_eq_found h
        obtain ⟨close, -, rfl⟩ := Reading.map_eq_found hClose
        exact (hNested _ _ _ _ hRead).1
      · cases h

/-- Each fold adds at most a node to the longest path. -/
theorem height_readOperators_le (hNested : BoundsHeight levels) {floor : Precedence}
    {folds : Nat} {left : Expr} {bound : Nat} (hBound : operandHeight levels ≤ bound)
    (hLeft : left.height ≤ bound)
    (h : readOperators (read levels) floor folds left tokens = .found tree rest) :
    tree.height ≤ bound + folds := by
  induction folds generalizing left tokens bound with
  | zero =>
      rcases Phrase.stops_or_binds floor tokens with hStops | ⟨token, later, rfl, hBinds⟩
      · rw [readOperators_of_stops hStops] at h
        obtain ⟨rfl, rfl⟩ := Reading.found.inj h
        exact hLeft
      · rw [readOperators, if_pos hBinds] at h
        cases h
  | succ folds ih =>
      rcases Phrase.stops_or_binds floor tokens with hStops | ⟨token, later, rfl, hBinds⟩
      · rw [readOperators_of_stops hStops] at h
        obtain ⟨rfl, rfl⟩ := Reading.found.inj h
        exact Nat.le_add_right_of_le hLeft
      · rw [readOperators, if_pos hBinds] at h
        obtain ⟨right, behind, hRead, hMore⟩ := Reading.andThen_eq_found h
        have hRight := (hNested _ _ _ _ hRead).1
        have hFolded : (binary token left token.literal right).height ≤ bound + 1 := by
          rw [height]
          omega
        have hTree := ih (by omega) hFolded hMore
        omega

/-- An expression is no taller than an operand and as many folds as there are levels
left. -/
theorem height_read_succ_le (hNested : BoundsHeight levels) {floor : Precedence}
    (h : read (levels + 1) floor tokens = .found tree rest) :
    tree.height ≤ operandHeight levels + levels := by
  rw [read] at h
  obtain ⟨left, behind, hOperand, hOperators⟩ := Reading.andThen_eq_found h
  exact height_readOperators_le hNested (Nat.le_refl _) (height_readOperand_le hNested hOperand)
    hOperators

/-- No operator binds tighter than a unary one, so an operand is all that is read. -/
theorem height_read_unary_le (hNested : BoundsHeight levels)
    (h : read (levels + 1) .unary tokens = .found tree rest) :
    tree.height ≤ operandHeight levels := by
  rw [read] at h
  obtain ⟨left, behind, hOperand, hOperators⟩ := Reading.andThen_eq_found h
  rw [readOperators_of_stops (Phrase.stops_unary behind)] at hOperators
  obtain ⟨rfl, rfl⟩ := Reading.found.inj hOperators
  exact height_readOperand_le hNested hOperand

/-- By induction on the levels, with the case of a unary operator's operand carried
along. -/
theorem boundsHeight (levels : Nat) : BoundsHeight levels := by
  induction levels with
  | zero =>
      intro floor tokens rest tree h
      cases h
  | succ levels ih =>
      intro floor tokens rest tree h
      rw [operandHeight]
      constructor
      · have hTree := height_read_succ_le ih h
        omega
      · rintro rfl
        have hTree := height_read_unary_le ih h
        omega

/-- The same bound in closed form, the sum of the numbers up to the levels and two. -/
theorem height_read_le {floor : Precedence}
    (h : read (levels + 1) floor tokens = .found tree rest) :
    tree.height ≤ 2 + levels * (levels + 1) / 2 :=
  Nat.le_trans (height_read_succ_le (boundsHeight levels) h) (operandHeight_add_le levels)

end Expr

namespace Phrase

/-- No byte makes a minus longer. -/
theorem IsTextOf.minus {operand : Phrase} {text : String} (h : operand.IsTextOf text) :
    (unary .minus operand).IsTextOf ("-" ++ text) := by
  intro rest hRest
  rw [Text.bytes_append, List.append_assoc]
  refine (@Lexer.stream_spelling_append .minus rfl _).trans ?_
  rw [h rest hRest, tokens, List.cons_append]

/-- An operand that makes all it can of the levels inside it: each holds a group with as
many additions behind it as are left to that level. At the bottom is a unary operator. -/
def tower : Nat → Phrase
  | 0 => .unary .minus (.name "x")
  | levels + 1 => .group ((tower levels).additions (levels + 1))

def towerText : Nat → String
  | 0 => "-x"
  | levels + 1 => "(" ++ additionsText (towerText levels) (levels + 1) ++ ")"

theorem operator?_tower (levels : Nat) : (tower levels).operator? = none := by
  cases levels <;> rfl

/-- By induction from the inside out, as its text is put together. -/
theorem isTextOf_tower (levels : Nat) : (tower levels).IsTextOf (towerText levels) := by
  induction levels with
  | zero => exact (isTextOf_name (by decide)).minus
  | succ levels ih => exact (ih.additions (levels + 1)).group

theorem grammatical_tower (levels : Nat) : (tower levels).Grammatical := by
  induction levels with
  | zero => exact .unary (by decide) (.name "x") rfl
  | succ levels ih => exact .group (grammatical_additions ih (operator?_tower levels) _)

/-- The additions at each level are as many as the levels the group has left, and no
more. -/
theorem operandNeed_tower_le (levels : Nat) : (tower levels).operandNeed ≤ levels + 1 := by
  induction levels with
  | zero => exact Nat.le_refl 1
  | succ levels ih =>
      have hOperands := operandNeed_additions_le (tower levels) (levels + 1)
      rw [tower, operandNeed_group, need, folds_additions (operator?_tower levels)]
      omega

/-- The full sum of the levels, as often as `levels` counts them down. -/
theorem height_tree_tower (levels : Nat) :
    (tower levels).tree.height = 2 + levels * (levels + 1) / 2 := by
  induction levels with
  | zero => rfl
  | succ levels ih =>
      have hTriangle : (levels + 1) * (levels + 1 + 1) =
          levels * (levels + 1) + 2 * (levels + 1) := by ring
      rw [tower, tree, height_tree_additions, ih]
      omega

end Phrase

namespace Program

/-- As tall as any tree can be, and within the limit. -/
theorem exists_height_eq :
    ∃ source : String, (parse source).2 = [] ∧
      ∃ statement ∈ (parse source).1.statements, ∃ value ∈ statement.value,
        value.height = 32642 := by
  have hSimple := Phrase.operator?_tower 254
  have hOperands := Phrase.operandNeed_additions_le (Phrase.tower 254) 255
  have hTower := Phrase.operandNeed_tower_le 254
  have hNeed : ((Phrase.tower 254).additions 255).need ≤ Expr.nestingLimit := by
    rw [Phrase.need, Phrase.folds_additions hSimple, Expr.nestingLimit]
    omega
  have hParse := parse_of_isTextOf ((Phrase.isTextOf_tower 254).additions 255)
    (Phrase.grammatical_additions (Phrase.grammatical_tower 254) hSimple 255) hNeed
  refine ⟨Phrase.additionsText (Phrase.towerText 254) 255, ?_⟩
  rw [hParse]
  refine ⟨rfl, _, List.mem_singleton_self _, _, rfl, ?_⟩
  rw [Phrase.height_tree_additions, Phrase.height_tree_tower]

end Program

namespace Machine

open Cursor (Agrees Outcome)

/-- No expression is open before the call. -/
theorem balanced_ofCall {depth : Nat} (hDepth : depth ≤ Expr.nestingLimit) (floor : Precedence)
    (cursor : Cursor) : (ofCall depth floor cursor).Balanced depth := ⟨rfl, hDepth⟩

/-- Every call of the expression reader comes to an end at the depth that it started at,
with what the reading of the tokens says, and whatever state it goes through is on the way
there, no deeper than the limit. A tree that is found is no taller than the levels left of
the limit can make it. From depth zero there is a source that makes it so tall. -/
theorem depth_restored_and_height_le :
    (∀ (depth : Nat) (floor : Precedence) (cursor : Cursor), depth ≤ Expr.nestingLimit →
      ∃ outcome : Outcome Expr,
        (ofCall depth floor cursor).Reaches (ended outcome [] depth) ∧
        Agrees cursor (Expr.read (Expr.nestingLimit - depth) floor cursor.unread) outcome ∧
        (∀ reached, (ofCall depth floor cursor).Reaches reached →
          reached.Balanced depth ∧ reached.Reaches (ended outcome [] depth)) ∧
        (depth ≤ 255 → ∀ tree ∈ outcome.found,
          tree.height ≤ 2 + (255 - depth) * (256 - depth) / 2)) ∧
    ∃ source : String, (Program.parse source).2 = [] ∧
      ∃ statement ∈ (Program.parse source).1.statements, ∃ value ∈ statement.value,
        value.height = 32642 := by
  refine ⟨fun depth floor cursor hDepth => ?_, Program.exists_height_eq⟩
  have hRun := expressionRuns depth floor cursor []
  have hAgrees := Cursor.agreesAt _ depth floor cursor _ rfl cursor.holds_unread
  refine ⟨Cursor.expression depth floor cursor, hRun, hAgrees, ?_, ?_⟩
  · intro reached hReached
    exact ⟨(balanced_ofCall hDepth floor cursor).reaches hReached,
      hReached.reaches_end hRun rfl⟩
  · intro hLevels tree hTree
    have hFound := hAgrees.found_eq
    rw [Option.mem_def.mp hTree] at hFound
    obtain ⟨rest, hRead⟩ := Reading.eq_found_of_value? hFound.symm
    have hLeft : Expr.nestingLimit - depth = (255 - depth) + 1 := by
      rw [Expr.nestingLimit]
      omega
    have hOneMore : 256 - depth = (255 - depth) + 1 := hLeft
    rw [hLeft] at hRead
    rw [hOneMore]
    exact Expr.height_read_le hRead

/-- One level below the limit there is none left for the operand of a unary operator. -/
theorem depth_restored_tooDeep :
    ∃ outcome : Outcome Expr,
      (ofCall 255 .lowest (.ofString "!x")).Reaches (ended outcome [] 255) ∧
      outcome.found = none ∧ outcome.cursor.diagnostics = [.tooDeep] := by
  obtain ⟨outcome, hRun, hAgrees, -, -⟩ :=
    depth_restored_and_height_le.1 255 .lowest (.ofString "!x") (by decide)
  exact ⟨outcome, hRun, hAgrees.found_eq, hAgrees.diagnostics_eq⟩

end Machine

end LetLang
