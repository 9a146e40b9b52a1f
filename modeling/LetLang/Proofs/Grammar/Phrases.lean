import LetLang.Proofs.Grammar.Syntax

/-! Reading phrases. With enough levels of nesting, the tokens of a phrase are
read as the tree of the phrase; with fewer, reading fails; and whatever is read
is the tree of some phrase. What follows the phrase only has to be no operator
that would take the phrase as its left operand. -/
namespace LetLang

namespace Precedence

/-- Every binary operator comes above the lowest floor, so a whole value takes in all of
them. -/
theorem lowest_lt_ofSymbol {symbol : Symbol} (h : symbol ∈ Symbol.binaryOperators) :
    lowest < ofSymbol symbol := by
  cases symbol <;> first | decide | exact absurd h (by decide)

/-- What comes above any floor is a binary operator. Other symbols have no strength. -/
theorem mem_binaryOperators {floor : Precedence} {symbol : Symbol} (h : floor < ofSymbol symbol) :
    symbol ∈ Symbol.binaryOperators := by
  cases symbol <;> first | decide | exact absurd h (Nat.not_lt_zero _)

/-- No binary operator binds tighter than a unary one. -/
theorem not_unary_lt_ofSymbol (symbol : Symbol) : ¬ unary < ofSymbol symbol := by
  cases symbol <;> decide

theorem not_unary_lt_ofKind (kind : Kind) : ¬ unary < ofKind kind := by
  cases kind with
  | symbol symbol => exact not_unary_lt_ofSymbol symbol
  | _ => exact Nat.not_lt_zero _

theorem lt_trans {first second third : Precedence} (h : first < second) (h' : second < third) :
    first < third :=
  Nat.lt_trans h h'

end Precedence

namespace Reading

variable {α β : Type}

/-- Nothing was found. -/
def Failed (reading : Reading α) : Prop := ∃ cause rest, reading = failed cause rest

theorem Failed.andThen {reading : Reading α} (h : reading.Failed)
    (continuation : α → List Token → Reading β) : (reading.andThen continuation).Failed := by
  obtain ⟨cause, rest, rfl⟩ := h
  exact ⟨cause, rest, rfl⟩

/-- What two parts find was found by the first, and by the second in what the first left. -/
theorem andThen_eq_found {reading : Reading α} {continuation : α → List Token → Reading β}
    {value : β} {rest : List Token} (h : reading.andThen continuation = found value rest) :
    ∃ first behind, reading = found first behind ∧ continuation first behind = found value rest := by
  cases reading with
  | found first behind => exact ⟨first, behind, rfl, h⟩
  | failed cause behind => cases h

theorem map_eq_found {reading : Reading α} {f : α → β} {value : β} {rest : List Token}
    (h : reading.map f = found value rest) :
    ∃ first, reading = found first rest ∧ f first = value := by
  cases reading with
  | found first behind =>
      obtain ⟨rfl, rfl⟩ := found.inj h
      exact ⟨first, rfl, rfl⟩
  | failed cause behind => cases h

theorem expect_eq_found {kind : Kind} {tokens rest : List Token} {token : Token}
    (h : expect kind tokens = found token rest) :
    tokens = token :: rest ∧ token.kind = kind := by
  cases tokens with
  | nil => cases h
  | cons first tokens =>
      simp only [expect] at h
      split at h
      · next hKind =>
          obtain ⟨rfl, rfl⟩ := found.inj h
          exact ⟨rfl, hKind⟩
      · cases h

end Reading

namespace Phrase

/-- The top operator binds tighter than a floor, if there is one. -/
def Above (floor : Precedence) (phrase : Phrase) : Prop :=
  ∀ top ∈ phrase.operator?, floor < Precedence.ofSymbol top

/-- Tokens that do not start with an operator above a floor. -/
def Stops (floor : Precedence) (tokens : List Token) : Prop :=
  ∀ token ∈ tokens.head?, ¬ floor < Precedence.ofKind token.kind

theorem stops_nil (floor : Precedence) : Stops floor [] := by
  intro token hToken
  cases hToken

theorem stops_cons {floor : Precedence} {token : Token}
    (h : ¬ floor < Precedence.ofKind token.kind) (rest : List Token) :
    Stops floor (token :: rest) := by
  intro first hFirst
  obtain rfl : token = first := Option.some.inj hFirst
  exact h

/-- A phrase without an operator at its top may stand at any floor. Operators deeper inside
do not count. -/
theorem above_of_operator?_eq_none {phrase : Phrase} (h : phrase.operator? = none)
    (floor : Precedence) : phrase.Above floor := by
  simp [Above, h]

/-- Any grammatical phrase may stand at the lowest floor, which is to say as a whole
value. -/
theorem Grammatical.above_lowest {phrase : Phrase} (h : phrase.Grammatical) :
    phrase.Above .lowest := by
  intro top hTop
  cases h with
  | binary hOperator =>
      obtain rfl : _ = top := Option.some.inj hTop
      exact Precedence.lowest_lt_ofSymbol hOperator
  | _ => cases hTop

/-- At the floor of a unary operand no phrase is binary, as no binary operator binds so
tightly. -/
theorem operator?_eq_none_of_above_unary {phrase : Phrase} (h : phrase.Above .unary) :
    phrase.operator? = none := by
  cases hTop : phrase.operator? with
  | none => rfl
  | some top => exact absurd (h top hTop) (Precedence.not_unary_lt_ofSymbol top)

/-- What the grammar asks of a left operand puts it above every floor of the whole. -/
theorem Above.left {floor : Precedence} {left right : Phrase} {operator : Symbol}
    (h : (binary left operator right).Above floor)
    (hLeftBinds : ∀ top ∈ left.operator?,
      ¬ Precedence.ofSymbol top < Precedence.ofSymbol operator) : left.Above floor := by
  intro top hTop
  exact Nat.lt_of_lt_of_le (h operator rfl) (Nat.le_of_not_lt (hLeftBinds top hTop))

/-- A left operand ends at its operator, whatever comes behind it. -/
theorem stops_operator {left : Phrase} {operator : Symbol}
    (hLeftBinds : ∀ top ∈ left.operator?,
      ¬ Precedence.ofSymbol top < Precedence.ofSymbol operator) (rest : List Token) :
    ∀ top ∈ left.operator?, Stops (Precedence.ofSymbol top) (.ofSymbol operator :: rest) :=
  fun top hTop => stops_cons (hLeftBinds top hTop) rest

/-- What is no operator above a floor is none above a higher one. -/
theorem Stops.mono {weaker tighter : Precedence} {tokens : List Token} (h : Stops weaker tokens)
    (hLt : weaker < tighter) : Stops tighter tokens :=
  fun token hToken hBinds => h token hToken (Precedence.lt_trans hLt hBinds)

/-- The operand of a unary operator ends in front of any token. -/
theorem stops_unary (tokens : List Token) : Stops .unary tokens :=
  fun token _ => Precedence.not_unary_lt_ofKind token.kind

/-- Either nothing above the floor comes next, or something does. -/
theorem stops_or_binds (floor : Precedence) (tokens : List Token) :
    Stops floor tokens ∨ ∃ token later, tokens = token :: later ∧
      floor < Precedence.ofKind token.kind := by
  cases tokens with
  | nil => exact .inl (stops_nil floor)
  | cons token later =>
      by_cases hBinds : floor < Precedence.ofKind token.kind
      · exact .inr ⟨token, later, rfl, hBinds⟩
      · exact .inl (stops_cons hBinds later)

/-- Among tokens that the lexer delivers, only operators come above a floor. -/
theorem stops_or_symbol (floor : Precedence) {tokens : List Token}
    (hSpelled : ∀ token ∈ tokens, token.Spelled) :
    Stops floor tokens ∨ ∃ operator later, tokens = .ofSymbol operator :: later ∧
      floor < Precedence.ofSymbol operator := by
  rcases stops_or_binds floor tokens with hStops | ⟨token, later, rfl, hBinds⟩
  · exact .inl hStops
  · right
    cases hKind : token.kind with
    | symbol operator =>
        rw [(hSpelled token List.mem_cons_self).eq_ofSymbol hKind]
        exact ⟨operator, later, rfl, by simpa [hKind, Precedence.ofKind] using hBinds⟩
    | _ =>
        rw [hKind] at hBinds
        exact absurd hBinds (Nat.not_lt_zero _)

end Phrase

namespace Expr

open Phrase (Above Stops)

theorem readOperators_of_stops {nested : Precedence → List Token → Reading Expr}
    {floor : Precedence} {tokens : List Token} (h : Stops floor tokens) (folds : Nat)
    (left : Expr) : readOperators nested floor folds left tokens = .found left tokens := by
  cases tokens with
  | nil => rw [readOperators]
  | cons token rest => cases folds <;> rw [readOperators, if_neg (h token rfl)]

/-- Behind an operator above the floor, a fold goes on with what is read for
its right operand. -/
theorem readOperators_symbol {nested : Precedence → List Token → Reading Expr}
    {floor : Precedence} {operator : Symbol} (hOperator : floor < Precedence.ofSymbol operator)
    (folds : Nat) (left : Expr) (tokens : List Token) :
    readOperators nested floor (folds + 1) left (.ofSymbol operator :: tokens) =
      (nested (Precedence.ofSymbol operator) tokens).andThen fun right rest =>
        readOperators nested floor folds
          (.binary (.ofSymbol operator) left operator.spelling right) rest := by
  rw [readOperators]
  exact if_pos hOperator

/-- Without a fold left, an operator above the floor is an error. It stays among the
tokens. -/
theorem readOperators_zero {nested : Precedence → List Token → Reading Expr}
    {floor : Precedence} {operator : Symbol} (hOperator : floor < Precedence.ofSymbol operator)
    (left : Expr) (tokens : List Token) :
    readOperators nested floor 0 left (.ofSymbol operator :: tokens) =
      .failed .tooDeep (.ofSymbol operator :: tokens) := by
  rw [readOperators]
  exact if_pos hOperator

/-- Both unary operators are read alike, and their operand above all binary operators. -/
theorem readOperand_unary (nested : Precedence → List Token → Reading Expr) {operator : Symbol}
    (hOperator : operator ∈ Symbol.unaryOperators) (tokens : List Token) :
    readOperand nested (.ofSymbol operator :: tokens) =
      (nested .unary tokens).map (.unary (.ofSymbol operator) operator.spelling) := by
  cases operator <;> first | rfl | exact absurd hOperator (by decide)

/-- What is in the group is read as a value of its own, from the lowest floor up. -/
theorem readOperand_group (nested : Precedence → List Token → Reading Expr)
    (tokens : List Token) :
    readOperand nested (.ofSymbol .openParen :: tokens) =
      (nested .lowest tokens).andThen fun inner behind =>
        (Reading.expect (.symbol .closeParen) behind).map fun _ => inner := rfl

/-- The tokens of a phrase above the floor are read as its tree, provided that
there are as many levels as it needs. -/
def ReadsPhrases (levels : Nat) : Prop :=
  ∀ (floor : Precedence) (phrase : Phrase) (rest : List Token), phrase.Grammatical →
    phrase.Above floor → Stops floor rest → phrase.need ≤ levels →
      read levels floor (phrase.tokens ++ rest) = .found phrase.tree rest

/-- From the left end of a phrase, one operand and one fold for each operator
lead to its tree. The induction is on the phrase, so that the operators come in
the order in which they are folded. -/
theorem readOperators_readOperand {levels : Nat} (hNested : ReadsPhrases levels)
    {floor : Precedence} {phrase : Phrase} (hPhrase : phrase.Grammatical)
    (hAbove : phrase.Above floor) (hOperands : phrase.operandNeed ≤ levels)
    (hFolds : phrase.folds ≤ levels) {rest : List Token}
    (hStops : ∀ top ∈ phrase.operator?, Stops (Precedence.ofSymbol top) rest) :
    (readOperand (read levels) (phrase.tokens ++ rest)).andThen
        (readOperators (read levels) floor levels) =
      readOperators (read levels) floor (levels - phrase.folds) phrase.tree rest := by
  induction hPhrase generalizing rest with
  | name word => rfl
  | @integer numeral value hValue =>
      have hOperand : readOperand (read levels) (⟨.int, numeral⟩ :: rest) =
          .found (.integer ⟨.int, numeral⟩ value) rest := by
        simp only [readOperand, hValue]
      exact congrArg (Reading.andThen · _) hOperand
  | @unary operator operand hOperator hOperand hSimple ih =>
      have hRead := hNested .unary operand rest hOperand
        (Phrase.above_of_operator?_eq_none hSimple _) (Phrase.stops_unary rest) hOperands
      rw [Phrase.tokens, List.cons_append, readOperand_unary _ hOperator, hRead]
      rfl
  | @group inner hInner ih =>
      have hRead := hNested .lowest inner (.ofSymbol .closeParen :: rest) hInner
        hInner.above_lowest (Phrase.stops_cons (Nat.not_lt_zero _) rest) hOperands
      rw [Phrase.tokens, List.cons_append, List.append_assoc, List.singleton_append,
        readOperand_group, hRead]
      rfl
  | @binary left right operator hOperator hLeft hRight hLeftBinds hRightBinds ihLeft ihRight =>
      have hFloor : floor < Precedence.ofSymbol operator := hAbove operator rfl
      have hRest : Stops (Precedence.ofSymbol operator) rest := hStops operator rfl
      rw [Phrase.operandNeed_binary] at hOperands
      rw [Phrase.folds] at hFolds
      have hRead := hNested _ right rest hRight hRightBinds hRest (by omega)
      have hLeftAbove := hAbove.left hLeftBinds
      have hLeftStops := Phrase.stops_operator hLeftBinds (right.tokens ++ rest)
      rw [Phrase.tokens, List.append_assoc, List.cons_append,
        ihLeft hLeftAbove (by omega) (by omega) hLeftStops]
      obtain ⟨folds, hSpare⟩ : ∃ folds, levels - left.folds = folds + 1 :=
        ⟨levels - left.folds - 1, by omega⟩
      rw [hSpare, readOperators_symbol hFloor, hRead, Reading.andThen_found, Phrase.folds,
        Phrase.tree]
      congr 1
      omega

/-- With as many levels as a phrase needs, its tokens are read as its tree. -/
theorem readsPhrases (levels : Nat) : ReadsPhrases levels := by
  induction levels with
  | zero =>
      intro floor phrase rest hPhrase hAbove hStops hNeed
      exact absurd hNeed (by rw [Phrase.need]; omega)
  | succ levels ih =>
      intro floor phrase rest hPhrase hAbove hStops hNeed
      rw [Phrase.need] at hNeed
      have hTop : ∀ top ∈ phrase.operator?, Stops (Precedence.ofSymbol top) rest :=
        fun top hTop => hStops.mono (hAbove top hTop)
      rw [read, readOperators_readOperand ih hPhrase hAbove (by omega) (by omega) hTop]
      exact readOperators_of_stops hStops _ _

/-- The tokens of a phrase above the floor cannot be read with fewer levels
than the phrase needs. -/
def FailsPhrases (levels : Nat) : Prop :=
  ∀ (floor : Precedence) (phrase : Phrase) (rest : List Token), phrase.Grammatical →
    phrase.Above floor → Stops floor rest → levels < phrase.need →
      (read levels floor (phrase.tokens ++ rest)).Failed

/-- If the operands of a phrase need too many levels, or if it has too many
operators, reading fails at the first of them. -/
theorem failed_readOperators_readOperand {levels : Nat} (hNested : FailsPhrases levels)
    {floor : Precedence} {phrase : Phrase} (hPhrase : phrase.Grammatical)
    (hAbove : phrase.Above floor) (hNeed : levels < max phrase.operandNeed phrase.folds)
    {rest : List Token} (hStops : ∀ top ∈ phrase.operator?, Stops (Precedence.ofSymbol top) rest) :
    ((readOperand (read levels) (phrase.tokens ++ rest)).andThen
        (readOperators (read levels) floor levels)).Failed := by
  induction hPhrase generalizing rest with
  | name word => exact absurd hNeed (Nat.not_lt_zero _)
  | integer hValue => exact absurd hNeed (Nat.not_lt_zero _)
  | @unary operator operand hOperator hOperand hSimple ih =>
      have hRead := hNested .unary operand rest hOperand
        (Phrase.above_of_operator?_eq_none hSimple _) (Phrase.stops_unary rest)
        (by simpa [Phrase.operandNeed_unary, Phrase.folds] using hNeed)
      rw [Phrase.tokens, List.cons_append, readOperand_unary _ hOperator]
      exact (hRead.andThen _).andThen _
  | @group inner hInner ih =>
      have hRead := hNested .lowest inner (.ofSymbol .closeParen :: rest) hInner
        hInner.above_lowest (Phrase.stops_cons (Nat.not_lt_zero _) rest)
        (by simpa [Phrase.operandNeed_group, Phrase.folds] using hNeed)
      rw [Phrase.tokens, List.cons_append, List.append_assoc, List.singleton_append,
        readOperand_group]
      exact (hRead.andThen _).andThen _
  | @binary left right operator hOperator hLeft hRight hLeftBinds hRightBinds ihLeft ihRight =>
      have hFloor : floor < Precedence.ofSymbol operator := hAbove operator rfl
      have hLeftAbove := hAbove.left hLeftBinds
      have hLeftStops := Phrase.stops_operator hLeftBinds (right.tokens ++ rest)
      rw [Phrase.operandNeed_binary, Phrase.folds] at hNeed
      rw [Phrase.tokens, List.append_assoc, List.cons_append]
      by_cases hLeftNeed : levels < max left.operandNeed left.folds
      · exact ihLeft hLeftAbove hLeftNeed hLeftStops
      · rw [readOperators_readOperand (readsPhrases levels) hLeft hLeftAbove (by omega)
          (by omega) hLeftStops]
        cases hSpare : levels - left.folds with
        | zero =>
            rw [readOperators_zero hFloor]
            exact ⟨_, _, rfl⟩
        | succ folds =>
            have hRead := hNested _ right rest hRight hRightBinds (hStops operator rfl) (by omega)
            rw [readOperators_symbol hFloor]
            exact hRead.andThen _

/-- With fewer levels than a phrase needs, reading its tokens fails. -/
theorem failsPhrases (levels : Nat) : FailsPhrases levels := by
  induction levels with
  | zero => exact fun floor phrase rest _ _ _ _ => ⟨_, _, rfl⟩
  | succ levels ih =>
      intro floor phrase rest hPhrase hAbove hStops hNeed
      rw [Phrase.need] at hNeed
      rw [read]
      exact failed_readOperators_readOperand ih hPhrase hAbove (by omega)
        fun top hTop => hStops.mono (hAbove top hTop)

/-- A phrase that was read from the front of some tokens, above a floor and
within some levels. -/
structure ReadAs (levels : Nat) (floor : Precedence) (tokens rest : List Token)
    (phrase : Phrase) : Prop where
  grammatical : phrase.Grammatical
  above : phrase.Above floor
  need_le : phrase.need ≤ levels
  tokens_eq : tokens = phrase.tokens ++ rest
  stops : Stops floor rest

/-- Whatever is read is the tree of a phrase. -/
def ReadsOnlyPhrases (levels : Nat) : Prop :=
  ∀ (floor : Precedence) (tokens : List Token) (tree : Expr) (rest : List Token),
    (∀ token ∈ tokens, token.Spelled) → read levels floor tokens = .found tree rest →
      ∃ phrase, ReadAs levels floor tokens rest phrase ∧ phrase.tree = tree

/-- A phrase that was read as an operand, so with no operator at its top. -/
structure ReadAsOperand (levels : Nat) (tokens rest : List Token) (phrase : Phrase) : Prop where
  grammatical : phrase.Grammatical
  simple : phrase.operator? = none
  operandNeed_le : phrase.operandNeed ≤ levels
  tokens_eq : tokens = phrase.tokens ++ rest

/-- A unary operator was read with a phrase that is not binary. -/
theorem phrase_of_unary {levels : Nat} (hNested : ReadsOnlyPhrases levels) {operator : Symbol}
    (hOperator : operator ∈ Symbol.unaryOperators) {tokens rest : List Token} {tree : Expr}
    (hSpelled : ∀ token ∈ tokens, token.Spelled)
    (h : (read levels .unary tokens).map (.unary (.ofSymbol operator) operator.spelling) =
      .found tree rest) :
    ∃ phrase, ReadAsOperand levels (.ofSymbol operator :: tokens) rest phrase ∧
      phrase.tree = tree := by
  obtain ⟨inner, hRead, rfl⟩ := Reading.map_eq_found h
  obtain ⟨operand, hOperand, rfl⟩ := hNested _ _ _ _ hSpelled hRead
  have hSimple := Phrase.operator?_eq_none_of_above_unary hOperand.above
  refine ⟨.unary operator operand, ⟨.unary hOperator hOperand.grammatical hSimple, rfl,
    hOperand.need_le, ?_⟩, rfl⟩
  rw [hOperand.tokens_eq]
  rfl

/-- A group was read with a whole phrase in it, which leaves no node of its own. -/
theorem phrase_of_group {levels : Nat} (hNested : ReadsOnlyPhrases levels)
    {tokens rest : List Token} {tree : Expr} (hSpelled : ∀ token ∈ tokens, token.Spelled)
    (h : ((read levels .lowest tokens).andThen fun inner behind =>
      (Reading.expect (.symbol .closeParen) behind).map fun _ => inner) = .found tree rest) :
    ∃ phrase, ReadAsOperand levels (.ofSymbol .openParen :: tokens) rest phrase ∧
      phrase.tree = tree := by
  obtain ⟨found, behind, hRead, hClose⟩ := Reading.andThen_eq_found h
  obtain ⟨close, hExpect, rfl⟩ := Reading.map_eq_found hClose
  obtain ⟨rfl, hKind⟩ := Reading.expect_eq_found hExpect
  obtain ⟨inner, hInner, rfl⟩ := hNested _ _ _ _ hSpelled hRead
  have hToken : close = .ofSymbol .closeParen := by
    refine Token.Spelled.eq_ofSymbol (hSpelled close ?_) hKind
    rw [hInner.tokens_eq]
    exact List.mem_append_right _ List.mem_cons_self
  refine ⟨.group inner, ⟨.group hInner.grammatical, rfl, hInner.need_le, ?_⟩, rfl⟩
  rw [hInner.tokens_eq, hToken]
  simp [Phrase.tokens]

/-- An operand was read as a phrase that is not binary. -/
theorem phrase_of_readOperand {levels : Nat} (hNested : ReadsOnlyPhrases levels)
    {tokens rest : List Token} {tree : Expr} (hSpelled : ∀ token ∈ tokens, token.Spelled)
    (h : readOperand (read levels) tokens = .found tree rest) :
    ∃ phrase, ReadAsOperand levels tokens rest phrase ∧ phrase.tree = tree := by
  cases tokens with
  | nil => cases h
  | cons token tokens =>
      have hToken := hSpelled token List.mem_cons_self
      have hLater : ∀ later ∈ tokens, later.Spelled :=
        fun later hMem => hSpelled later (List.mem_cons_of_mem _ hMem)
      obtain ⟨kind, literal⟩ := token
      simp only [readOperand] at h
      split at h
      · obtain ⟨rfl, rfl⟩ := Reading.found.inj h
        exact ⟨.name literal, ⟨.name literal, rfl, Nat.zero_le _, rfl⟩, rfl⟩
      · split at h
        · next value hValue =>
            obtain ⟨rfl, rfl⟩ := Reading.found.inj h
            exact ⟨.integer literal value, ⟨.integer hValue, rfl, Nat.zero_le _, rfl⟩, rfl⟩
        · cases h
      · obtain rfl : literal = "!" := hToken
        exact phrase_of_unary hNested (show Symbol.bang ∈ Symbol.unaryOperators by decide) hLater h
      · obtain rfl : literal = "-" := hToken
        exact phrase_of_unary hNested (show Symbol.minus ∈ Symbol.unaryOperators by decide) hLater h
      · obtain rfl : literal = "(" := hToken
        exact phrase_of_group hNested hLater h
      · cases h

/-- Where no operator is left to fold, a phrase ends. -/
theorem readAs_of_stops {levels : Nat} {floor : Precedence} {phrase : Phrase} {rest : List Token}
    (hPhrase : phrase.Grammatical) (hAbove : phrase.Above floor)
    (hOperands : phrase.operandNeed ≤ levels) (hFolds : phrase.folds ≤ levels)
    (hStops : Stops floor rest) : ReadAs (levels + 1) floor (phrase.tokens ++ rest) rest phrase where
  grammatical := hPhrase
  above := hAbove
  need_le := by
    rw [Phrase.need]
    omega
  tokens_eq := rfl
  stops := hStops

/-- Folding operators behind a phrase gives a longer phrase. The folds left are
those that the phrase has not used of all levels. -/
theorem phrase_of_readOperators {levels : Nat} (hNested : ReadsOnlyPhrases levels)
    {floor : Precedence} {folds : Nat} {left : Phrase} {tokens rest : List Token} {tree : Expr}
    (hLeft : left.Grammatical) (hAbove : left.Above floor) (hOperands : left.operandNeed ≤ levels)
    (hFolds : left.folds + folds = levels)
    (hStops : ∀ top ∈ left.operator?, Stops (Precedence.ofSymbol top) tokens)
    (hSpelled : ∀ token ∈ tokens, token.Spelled)
    (h : readOperators (read levels) floor folds left.tree tokens = .found tree rest) :
    ∃ phrase, ReadAs (levels + 1) floor (left.tokens ++ tokens) rest phrase ∧
      phrase.tree = tree := by
  induction folds generalizing left tokens with
  | zero =>
      rcases Phrase.stops_or_symbol floor hSpelled with hStop | ⟨operator, later, rfl, hFloor⟩
      · rw [readOperators_of_stops hStop] at h
        obtain ⟨rfl, rfl⟩ := Reading.found.inj h
        exact ⟨left, readAs_of_stops hLeft hAbove hOperands (by omega) hStop, rfl⟩
      · rw [readOperators_zero hFloor] at h
        cases h
  | succ folds ih =>
      rcases Phrase.stops_or_symbol floor hSpelled with hStop | ⟨operator, later, rfl, hFloor⟩
      · rw [readOperators_of_stops hStop] at h
        obtain ⟨rfl, rfl⟩ := Reading.found.inj h
        exact ⟨left, readAs_of_stops hLeft hAbove hOperands (by omega) hStop, rfl⟩
      · rw [readOperators_symbol hFloor] at h
        obtain ⟨found, behind, hRead, hMore⟩ := Reading.andThen_eq_found h
        have hLater : ∀ token ∈ later, token.Spelled :=
          fun token hMem => hSpelled token (List.mem_cons_of_mem _ hMem)
        obtain ⟨right, hRight, rfl⟩ := hNested _ _ _ _ hLater hRead
        have hLonger : (Phrase.binary left operator right).Grammatical :=
          .binary (Precedence.mem_binaryOperators hFloor) hLeft hRight.grammatical
            (fun top hTop => hStops top hTop _ rfl) hRight.above
        have hBehind : ∀ token ∈ behind, token.Spelled := by
          intro token hMem
          apply hLater token
          rw [hRight.tokens_eq]
          exact List.mem_append_right _ hMem
        obtain ⟨phrase, hPhrase, hTree⟩ := ih hLonger (by rintro _ ⟨⟩; exact hFloor)
          (Nat.max_le.mpr ⟨hOperands, hRight.need_le⟩) (by rw [Phrase.folds]; omega)
          (by rintro _ ⟨⟩; exact hRight.stops) hBehind hMore
        refine ⟨phrase, ?_, hTree⟩
        rw [hRight.tokens_eq]
        simpa [Phrase.tokens] using hPhrase

/-- By induction on the levels: no level, no value; otherwise the phrase of the operand
grows by one operator at a time. -/
theorem readsOnlyPhrases (levels : Nat) : ReadsOnlyPhrases levels := by
  induction levels with
  | zero =>
      intro floor tokens tree rest hSpelled h
      cases h
  | succ levels ih =>
      intro floor tokens tree rest hSpelled h
      rw [read] at h
      obtain ⟨left, behind, hOperand, hOperators⟩ := Reading.andThen_eq_found h
      obtain ⟨phrase, hPhrase, rfl⟩ := phrase_of_readOperand ih hSpelled hOperand
      have hSimple := hPhrase.simple
      have hBehind : ∀ token ∈ behind, token.Spelled := by
        intro token hMem
        apply hSpelled token
        rw [hPhrase.tokens_eq]
        exact List.mem_append_right _ hMem
      rw [hPhrase.tokens_eq]
      exact phrase_of_readOperators ih hPhrase.grammatical
        (Phrase.above_of_operator?_eq_none hSimple _) hPhrase.operandNeed_le
        (by rw [Phrase.folds_of_operator?_eq_none hSimple, Nat.zero_add]) (by simp [hSimple])
        hBehind hOperators

end Expr

/-- The grammar is unambiguous: where two phrases can end in front of what
follows them, the same tokens hold phrases of the same extent and tree. -/
theorem Phrase.Grammatical.tree_eq_of_tokens_append_eq {first second : Phrase}
    (hFirst : first.Grammatical) (hSecond : second.Grammatical) {rest later : List Token}
    (hRest : Stops .lowest rest) (hLater : Stops .lowest later)
    (hTokens : first.tokens ++ rest = second.tokens ++ later) :
    first.tree = second.tree ∧ rest = later := by
  have hReadFirst := Expr.readsPhrases (max first.need second.need) .lowest first rest hFirst
    hFirst.above_lowest hRest (Nat.le_max_left _ _)
  have hReadSecond := Expr.readsPhrases (max first.need second.need) .lowest second later hSecond
    hSecond.above_lowest hLater (Nat.le_max_right _ _)
  rw [hTokens, hReadSecond] at hReadFirst
  obtain ⟨hTree, hLeft⟩ := Reading.found.inj hReadFirst
  exact ⟨hTree.symm, hLeft.symm⟩

end LetLang
