import LetLang.Proofs.Grammar.Scripts

/-! The grammar of programs is unambiguous, at every depth of nesting: the tokens of a
grammatical script determine its tree. How many levels a reader has plays no part in it. -/
namespace LetLang

namespace Sentence

variable {first second : Sentence} {rest later : List Token}

/-- Sentences are told apart from their first token on. -/
theorem first_eq_of_tokens_append_eq (hTokens : first.tokens ++ rest = second.tokens ++ later) :
    first.first = second.first := by
  obtain ⟨behind, hFirst⟩ := first.tokens_eq_first_cons
  obtain ⟨ahead, hSecond⟩ := second.tokens_eq_first_cons
  rw [hFirst, hSecond] at hTokens
  exact (List.cons.inj hTokens).1

/-- The first token shows how a statement starts, since no value starts with a keyword. -/
theorem opening_eq_of_tokens_append_eq (hFirst : first.value.Grammatical)
    (hSecond : second.value.Grammatical)
    (hTokens : first.tokens ++ rest = second.tokens ++ later) :
    first.opening = second.opening ∧
      first.value.tokens ++ (first.ending ++ rest) =
        second.value.tokens ++ (second.ending ++ later) := by
  have hHead := first_eq_of_tokens_append_eq hTokens
  obtain ⟨opening, value, terminated⟩ := first
  obtain ⟨otherOpening, otherValue, otherTerminated⟩ := second
  simp only [tokens, List.append_assoc] at hTokens
  cases opening with
  | binding name =>
      cases otherOpening with
      | binding otherName =>
          simp only [Opening.tokens, List.cons_append, List.nil_append, List.cons.injEq,
            Token.mk.injEq, true_and] at hTokens
          exact ⟨congrArg Opening.binding hTokens.1, hTokens.2⟩
      | result => cases hHead
      | bare => exact absurd (congrArg Token.kind hHead).symm (hSecond.first_ne_keyword _)
  | result =>
      cases otherOpening with
      | binding otherName => cases hHead
      | result => exact ⟨rfl, (List.cons.inj hTokens).2⟩
      | bare => exact absurd (congrArg Token.kind hHead).symm (hSecond.first_ne_keyword _)
  | bare =>
      cases otherOpening with
      | bare => exact ⟨rfl, hTokens⟩
      | _ => exact absurd (congrArg Token.kind hHead) (hFirst.first_ne_keyword _)

/-- Where two sentences can end in front of what follows them, the same tokens hold
sentences of the same extent and tree. -/
theorem tree_eq_of_tokens_append_eq (hFirst : first.value.Grammatical)
    (hSecond : second.value.Grammatical) (hRest : first.EndsBefore rest)
    (hLater : second.EndsBefore later)
    (hTokens : first.tokens ++ rest = second.tokens ++ later) :
    first.tree = second.tree ∧ rest = later := by
  have hHead := first_eq_of_tokens_append_eq hTokens
  obtain ⟨hOpening, hValues⟩ := opening_eq_of_tokens_append_eq hFirst hSecond hTokens
  obtain ⟨hTree, hBehind⟩ :=
    hFirst.tree_eq_of_tokens_append_eq hSecond hRest.stops hLater.stops hValues
  refine ⟨?_, ?_⟩
  · rw [tree, tree, hOpening, hHead, hTree]
  · rw [← hRest.dropSemicolon_eq, hBehind, hLater.dropSemicolon_eq]

end Sentence

namespace Script

/-- The case of a script with nothing behind it. -/
theorem Grammatical.head_endsBefore {sentence : Sentence} {later : List Sentence}
    (h : Grammatical ⟨sentence :: later⟩) : sentence.EndsBefore (tokens ⟨later⟩) := by
  have hEnds := h.endsBefore Attempt.atEnd_nil
  rwa [List.append_nil] at hEnds

theorem tokens_cons_ne_nil (sentence : Sentence) (later : List Sentence) :
    tokens ⟨sentence :: later⟩ ≠ [] := by
  obtain ⟨behind, hTokens⟩ := sentence.tokens_eq_first_cons
  rw [tokens_cons, hTokens]
  exact List.cons_ne_nil _ _

/-- A script is known by its tokens, but for groups and semicolons, which its tree does not
show. The sentences are compared one after another from the front. -/
theorem Grammatical.tree_eq_of_tokens_eq {first second : Script} (hFirst : first.Grammatical)
    (hSecond : second.Grammatical) (hTokens : first.tokens = second.tokens) :
    first.tree = second.tree := by
  obtain ⟨sentences⟩ := first
  obtain ⟨otherSentences⟩ := second
  induction sentences generalizing otherSentences with
  | nil =>
      cases otherSentences with
      | nil => rfl
      | cons sentence later => exact absurd hTokens.symm (tokens_cons_ne_nil sentence later)
  | cons sentence later ih =>
      cases otherSentences with
      | nil => exact absurd hTokens (tokens_cons_ne_nil sentence later)
      | cons otherSentence otherLater =>
          rw [tokens_cons, tokens_cons] at hTokens
          obtain ⟨hTree, hRest⟩ := Sentence.tree_eq_of_tokens_append_eq
            (hFirst.values _ List.mem_cons_self) (hSecond.values _ List.mem_cons_self)
            hFirst.head_endsBefore hSecond.head_endsBefore hTokens
          have hLater := ih hFirst.tail otherLater hSecond.tail hRest
          have hStatements : later.map Sentence.tree = otherLater.map Sentence.tree :=
            congrArg Program.statements hLater
          rw [tree, tree, List.map_cons, List.map_cons, hTree, hStatements]

end Script

end LetLang
