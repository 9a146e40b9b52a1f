import Mathlib.Tactic.Ring
import LetLang.Proofs.Provenance

/-! Nesting and height. The limit of nesting bounds how often an operand, not the
first of its expression, is nested in another. It does not bound the height of a
tree by itself: folds are counted from none in every expression, however tall the
operand is that the first of them takes. Each level can then add as many nodes to
a path as there are levels below it, and the height is bounded by their sum. -/
namespace LetLang

namespace Expr

/-- Nodes on the longest path from the root of a tree to a leaf. -/
def height : Expr → Nat
  | name _ => 1
  | integer _ _ => 1
  | unary _ _ operand => 1 + operand.height
  | binary _ left _ right => 1 + max left.height right.height

theorem one_le_height (expr : Expr) : 1 ≤ expr.height := by
  cases expr <;> simp [height]

/-- The height of a tree if a left operand counts as standing beside its operator. -/
def nesting : Expr → Nat
  | name _ => 1
  | integer _ _ => 1
  | unary _ _ operand => 1 + operand.nesting
  | binary _ left _ right => max left.nesting (1 + right.nesting)

/-- The height of an operand whose inner expressions have so many levels. A unary
operator adds one to an operand with a level less, and a group adds the folds
that its expression can have. -/
def operandHeight : (levels : Nat) → Nat
  | 0 => 1
  | levels + 1 => operandHeight levels + max 1 levels

/-- Without levels inside, an operand can still be a name or a numeral. -/
theorem one_le_operandHeight (levels : Nat) : 1 ≤ operandHeight levels := by
  induction levels with
  | zero => exact Nat.le_refl 1
  | succ levels ih => exact Nat.le_add_right_of_le ih

/-- An operand and all folds behind it: but for the first two, each level adds
the number of levels below it. -/
theorem operandHeight_add_le (levels : Nat) :
    operandHeight levels + levels ≤ 2 + levels * (levels + 1) / 2 := by
  induction levels with
  | zero => decide
  | succ levels ih =>
      have hTriangle : (levels + 1) * (levels + 1 + 1) =
          levels * (levels + 1) + 2 * (levels + 1) := by ring
      cases levels with
      | zero => decide
      | succ levels =>
          rw [operandHeight]
          omega

end Expr

namespace Phrase

open LetLang.Expr (operandHeight one_le_operandHeight)

/-- A left operand shares its level with the operator behind it, on the tree as in the need
of the phrase. -/
theorem Grammatical.nesting_tree_le {phrase : Phrase} (h : phrase.Grammatical) :
    phrase.tree.nesting ≤ phrase.need := by
  induction h with
  | name word => exact Nat.le_refl 1
  | integer hValue => exact Nat.le_refl 1
  | unary hOperator hOperand hSimple ih =>
      rw [need_unary]
      exact Nat.add_le_add_left ih 1
  | group hInner ih =>
      rw [need_group]
      exact Nat.le_add_left_of_le ih
  | binary hOperator hLeft hRight hLeftBinds hRightBinds ihLeft ihRight =>
      rw [need] at ihLeft
      rw [need_binary, tree, Expr.nesting]
      omega

/-- Every fold adds a node to the longest path, and every level below may add
as many as an operand can have. -/
theorem Grammatical.height_tree_le {phrase : Phrase} (h : phrase.Grammatical) {levels : Nat}
    (hOperands : phrase.operandNeed ≤ levels) :
    phrase.tree.height ≤ operandHeight levels + phrase.folds := by
  induction h generalizing levels with
  | name word => exact one_le_operandHeight levels
  | integer hValue => exact one_le_operandHeight levels
  | @unary operator operand hOperator hOperand hSimple ih =>
      rw [operandNeed_unary, need] at hOperands
      cases levels with
      | zero => omega
      | succ levels =>
          have hFolds := folds_of_operator?_eq_none hSimple
          have hHeight : operand.tree.height ≤ operandHeight levels + operand.folds :=
            ih (by omega)
          rw [tree, Expr.height, operandHeight]
          omega
  | @group inner hInner ih =>
      rw [operandNeed_group, need] at hOperands
      cases levels with
      | zero => omega
      | succ levels =>
          have hHeight : inner.tree.height ≤ operandHeight levels + inner.folds := ih (by omega)
          rw [tree, operandHeight]
          omega
  | @binary left right operator hOperator hLeft hRight hLeftBinds hRightBinds ihLeft ihRight =>
      rw [operandNeed_binary, need] at hOperands
      have hLeftHeight : left.tree.height ≤ operandHeight levels + left.folds :=
        ihLeft (by omega)
      cases levels with
      | zero => omega
      | succ levels =>
          have hRightHeight : right.tree.height ≤ operandHeight levels + right.folds :=
            ihRight (by omega)
          rw [operandHeight] at hLeftHeight
          rw [tree, Expr.height, folds, operandHeight]
          omega

end Phrase

namespace Phrase

/-- The bytes of a text are read as the tokens of a phrase, whatever follows
that does not extend the last of them. -/
def IsTextOf (phrase : Phrase) (text : String) : Prop :=
  ∀ rest, Byte.Breaks rest →
    Lexer.stream (Text.bytes text ++ rest) = phrase.tokens ++ Lexer.stream rest

theorem isTextOf_name {word : String} (hWord : Text.IsName word) :
    (name word).IsTextOf word :=
  fun _ hRest => Lexer.stream_name_append hWord hRest

/-- Parentheses are read by themselves, and the closing one extends no token before it. -/
theorem IsTextOf.group {inner : Phrase} {text : String} (h : inner.IsTextOf text) :
    (Phrase.group inner).IsTextOf ("(" ++ text ++ ")") := by
  intro rest hRest
  rw [Text.bytes_append, Text.bytes_append, List.append_assoc, List.append_assoc,
    Lexer.stream_open_append, h _ (Byte.breaks_close rest), Lexer.stream_close_append]
  simp [tokens]

/-- So many names added to a phrase, one after another. -/
def additions (start : Phrase) : Nat → Phrase
  | 0 => start
  | count + 1 => .binary (additions start count) .plus (.name "x")

def additionsText (start : String) : Nat → String
  | 0 => start
  | count + 1 => additionsText start count ++ "+x"

/-- By induction on the names. The plus ends what is before it, and the name ends where
the whole does. -/
theorem IsTextOf.additions {start : Phrase} {text : String} (h : start.IsTextOf text)
    (count : Nat) : (start.additions count).IsTextOf (additionsText text count) := by
  induction count with
  | zero => exact h
  | succ count ih =>
      intro rest hRest
      have hPlus : Text.bytes "+x" = Text.bytes "+" ++ Text.bytes "x" := by decide
      have hBreaks : Byte.Breaks (Text.bytes "+" ++ (Text.bytes "x" ++ rest)) :=
        Byte.breaks_cons (by decide) _
      have hRead : Lexer.stream (Text.bytes "+" ++ (Text.bytes "x" ++ rest)) =
          .ofSymbol .plus :: ⟨.ident, "x"⟩ :: Lexer.stream rest := by
        rw [← Lexer.stream_name_append (show Text.IsName "x" by decide) hRest]
        exact @Lexer.stream_spelling_append .plus rfl _
      rw [additionsText, Text.bytes_append, List.append_assoc, hPlus, List.append_assoc,
        ih _ hBreaks, hRead, Phrase.additions, tokens, List.append_assoc]
      rfl

variable {start : Phrase}

/-- Operators behind a phrase do not change what it starts with. -/
theorem first_additions (start : Phrase) (count : Nat) :
    (start.additions count).first = start.first := by
  induction count with
  | zero => rfl
  | succ count ih => exact ih

/-- Sums group to the left without parentheses. -/
theorem grammatical_additions (h : start.Grammatical) (hSimple : start.operator? = none)
    (count : Nat) : (start.additions count).Grammatical := by
  induction count with
  | zero => exact h
  | succ count ih =>
      refine .binary (by decide) ih (.name "x") ?_ (by rintro _ ⟨⟩)
      cases count with
      | zero => simp [additions, hSimple]
      | succ count =>
          rintro _ ⟨⟩
          decide

/-- All the additions are folds of one expression, and count against the limit
together. -/
theorem folds_additions (hSimple : start.operator? = none) (count : Nat) :
    (start.additions count).folds = count := by
  induction count with
  | zero => exact folds_of_operator?_eq_none hSimple
  | succ count ih => exact congrArg (· + 1) ih

/-- A name that is added needs one level, whichever it is in the row. -/
theorem operandNeed_additions_le (start : Phrase) (count : Nat) :
    (start.additions count).operandNeed ≤ max start.operandNeed 1 := by
  induction count with
  | zero => exact Nat.le_max_left _ _
  | succ count ih => exact Nat.max_le.mpr ⟨ih, Nat.le_max_right _ _⟩

/-- Each addition puts a node above all that is before it. -/
theorem height_tree_additions (start : Phrase) (count : Nat) :
    (start.additions count).tree.height = count + start.tree.height := by
  induction count with
  | zero => exact (Nat.zero_add _).symm
  | succ count ih =>
      have hHeight := start.tree.one_le_height
      rw [additions, tree, Expr.height, ih, tree, Expr.height]
      omega

/-- A sum in parentheses, and names added to it. -/
def groupedSum (inner outer : Nat) : Phrase :=
  (group ((name "x").additions inner)).additions outer

def groupedSumText (inner outer : Nat) : String :=
  additionsText ("(" ++ additionsText "x" inner ++ ")") outer

theorem isTextOf_groupedSum (inner outer : Nat) :
    (groupedSum inner outer).IsTextOf (groupedSumText inner outer) :=
  ((isTextOf_name (by decide)).additions inner).group.additions outer

/-- The group in front is an operand like a name. -/
theorem grammatical_groupedSum (inner outer : Nat) : (groupedSum inner outer).Grammatical :=
  grammatical_additions (.group (grammatical_additions (.name "x") rfl inner)) rfl outer

/-- Both sums have a level of their own, and the folds of one do not count in the other. -/
theorem need_groupedSum_le (inner outer : Nat) :
    (groupedSum inner outer).need ≤ 1 + max (1 + max 1 inner) outer := by
  have hInner := operandNeed_additions_le (name "x") inner
  have hOuter := operandNeed_additions_le (group ((name "x").additions inner)) outer
  rw [operandNeed_group, need, folds_additions rfl] at hOuter
  rw [operandNeed] at hInner
  rw [groupedSum, need, folds_additions rfl]
  omega

/-- The heights of both sums add up, since the one is the first operand of the other. -/
theorem height_tree_groupedSum (inner outer : Nat) :
    (groupedSum inner outer).tree.height = outer + (inner + 1) := by
  rw [groupedSum, height_tree_additions, tree, height_tree_additions]
  rfl

end Phrase

namespace Program

/-- A phrase within the limit is parsed from its text as a statement of its own. -/
theorem parse_of_isTextOf {phrase : Phrase} {text : String} (hText : phrase.IsTextOf text)
    (hPhrase : phrase.Grammatical) (hNeed : phrase.need ≤ Expr.nestingLimit) :
    parse text = (⟨[.expression phrase.first (some phrase.tree)]⟩, []) := by
  let script : Script := ⟨[⟨.bare, phrase, false⟩]⟩
  have hScript : script.Grammatical := by
    refine ⟨?_, List.isChain_singleton _⟩
    intro sentence hSentence
    obtain rfl := List.mem_singleton.mp hSentence
    exact hPhrase
  have hLimit : script.WithinLimit := by
    intro sentence hSentence
    obtain rfl := List.mem_singleton.mp hSentence
    exact hNeed
  have hStream : Lexer.stream (Text.bytes text) = script.tokens := by
    have hAlone := hText [] Byte.breaks_nil
    rw [List.append_nil, Lexer.stream_nil, List.append_nil] at hAlone
    simp [hAlone, script, Script.tokens, Sentence.tokens, Sentence.ending, Opening.tokens]
  have hAll := Script.readAll_tokens hScript hLimit Attempt.atEnd_nil
  rw [List.append_nil, ← hStream] at hAll
  exact parse_of_complete hAll

/-- Either sum may be as long as the limit allows for it alone. -/
theorem parse_groupedSum {inner outer : Nat} (hInner : inner + 2 ≤ Expr.nestingLimit)
    (hOuter : outer + 1 ≤ Expr.nestingLimit) :
    parse (Phrase.groupedSumText inner outer) =
      (⟨[.expression (.ofSymbol .openParen) (some (Phrase.groupedSum inner outer).tree)]⟩, []) := by
  have hNeed := Phrase.need_groupedSum_le inner outer
  have hLimit : Expr.nestingLimit = 256 := rfl
  have hFirst : (Phrase.groupedSum inner outer).first = .ofSymbol .openParen :=
    Phrase.first_additions _ outer
  rw [← hFirst]
  exact parse_of_isTextOf (Phrase.isTextOf_groupedSum inner outer)
    (Phrase.grammatical_groupedSum inner outer) (by omega)

/-- No value nests deeper than the limit, whatever a source is, but folds can make
it taller: up to two nodes and the sum of the numbers below the limit. -/
theorem nesting_le_and_height_le (source : String) :
    ∀ statement ∈ (parse source).1.statements, ∀ value ∈ statement.value,
      value.nesting ≤ Expr.nestingLimit ∧
        value.height ≤ 2 + (Expr.nestingLimit - 1) * Expr.nestingLimit / 2 := by
  intro statement hStatement value hValue
  obtain ⟨attempt, taken, left, hDrawn, hSome⟩ := exists_drawnFrom_of_mem_statements hStatement
  obtain ⟨phrase, hPhrase, hNeed, rfl⟩ := hDrawn.values statement hSome value hValue
  refine ⟨hPhrase.nesting_tree_le.trans hNeed, ?_⟩
  rw [Phrase.need] at hNeed
  have hHeight : phrase.tree.height ≤
      Expr.operandHeight (Expr.nestingLimit - 1) + phrase.folds :=
    hPhrase.height_tree_le (by omega)
  have hSum : Expr.operandHeight (Expr.nestingLimit - 1) + (Expr.nestingLimit - 1) ≤
      2 + (Expr.nestingLimit - 1) * Expr.nestingLimit / 2 :=
    Expr.operandHeight_add_le (Expr.nestingLimit - 1)
  omega

theorem nesting_le_and_height_le_groupedSum :
    (Phrase.groupedSum 254 255).tree.nesting ≤ 256 ∧
      (Phrase.groupedSum 254 255).tree.height ≤ 32642 := by
  have hStatement :
      Statement.expression (.ofSymbol .openParen) (some (Phrase.groupedSum 254 255).tree) ∈
        (parse (Phrase.groupedSumText 254 255)).1.statements := by
    rw [parse_groupedSum (by decide) (by decide)]
    exact List.mem_singleton_self _
  exact nesting_le_and_height_le _ _ hStatement _ rfl

/-- Two names added to the longest sum that a group may hold make a tree that is
taller than the limit, and nothing is reported. -/
theorem exists_height_gt_nestingLimit :
    (parse (Phrase.groupedSumText 254 2)).2 = [] ∧
      ∃ statement ∈ (parse (Phrase.groupedSumText 254 2)).1.statements,
        ∃ value ∈ statement.value, Expr.nestingLimit < value.height := by
  rw [parse_groupedSum (by decide) (by decide)]
  refine ⟨rfl, _, List.mem_singleton_self _, _, rfl, ?_⟩
  rw [Phrase.height_tree_groupedSum]
  decide

end Program

end LetLang
