import LetLang.Proofs.Canonical.Reparsing
import LetLang.Proofs.Grammar.Unambiguity

/-! Canonical text says everything about a program but the token that an expression
statement starts with. No limit of nesting comes into this: the text is compared as the
tokens of a script, and the grammar is unambiguous at every depth. -/
namespace LetLang

namespace Statement

/-- A well-formed statement, whichever token an expression statement was said to start
with. -/
inductive Legible : Statement → Prop where
  | binding {word : String} {value : Expr} (hWord : Text.IsName word)
      (hValue : value.WellFormed) :
      Legible (.binding (.ofKeyword .letWord) ⟨⟨.ident, word⟩, word⟩ (some value))
  | result {value : Expr} (hValue : value.WellFormed) :
      Legible (.result (.ofKeyword .returnWord) (some value))
  | expression (first : Token) {value : Expr} (hValue : value.WellFormed) :
      Legible (.expression first (some value))

/-- A legible statement is well-formed once it has the token that its text starts with.
Nothing else can be wrong with it. -/
theorem Legible.wellFormed_canonical {statement : Statement} (h : statement.Legible) :
    statement.canonical.WellFormed := by
  cases h with
  | binding hWord hValue => exact .binding hWord hValue
  | result hValue => exact .result hValue
  | expression first hValue => exact .expression hValue

/-- Making two statements canonical changes the token in front of an expression at most,
so only that can differ between them. -/
theorem sameShape_of_canonical_eq {left right : Statement}
    (h : left.canonical = right.canonical) : left.SameShape right := by
  revert h
  fun_cases canonical left with
  | case1 first value =>
      fun_cases canonical right with
      | case1 second other =>
          intro h
          obtain rfl := Option.some.inj (Statement.expression.inj h).2
          exact .expression first second (some value)
      | case2 hOther =>
          rintro rfl
          exact .expression first _ (some value)
  | case2 hOther =>
      fun_cases canonical right with
      | case1 second other =>
          rintro rfl
          exact .expression _ second (some other)
      | case2 hRight =>
          rintro rfl
          exact .refl _

/-- Statements of one shape have one canonical text. The token in which they may differ is
not printed. -/
theorem SameShape.render_eq {left right : Statement} (h : left.SameShape right) :
    left.render = right.render := by
  cases h with
  | refl => rfl
  | expression first second value => rfl

/-- They also have the same value, with all the tokens in it. -/
theorem SameShape.value_eq {left right : Statement} (h : left.SameShape right) :
    left.value = right.value := by
  cases h with
  | refl => rfl
  | expression first second value => rfl

end Statement

namespace Program

variable {left right : Program}

def Legible (program : Program) : Prop :=
  ∀ statement ∈ program.statements, statement.Legible

theorem Legible.wellFormed_canonical {program : Program} (h : program.Legible) :
    program.canonical.WellFormed := by
  intro statement hStatement
  obtain ⟨source, hSource, rfl⟩ := List.mem_map.mp hStatement
  exact (h source hSource).wellFormed_canonical

theorem SameShape.render_eq (h : left.SameShape right) : left.render = right.render := by
  have hLines : left.statements.map Statement.render = right.statements.map Statement.render := by
    rw [← List.forall₂_eq_eq_eq, List.forall₂_map_left_iff, List.forall₂_map_right_iff]
    exact List.Forall₂.imp (fun _ _ => Statement.SameShape.render_eq) h
  rw [render, render, hLines]

theorem sameShape_of_canonical_eq (h : left.canonical = right.canonical) :
    left.SameShape right := by
  have hStatements : left.statements.map Statement.canonical =
      right.statements.map Statement.canonical := congrArg statements h
  rw [← List.forall₂_eq_eq_eq, List.forall₂_map_left_iff, List.forall₂_map_right_iff]
    at hStatements
  exact hStatements.imp fun _ _ => Statement.sameShape_of_canonical_eq

/-- The tokens of the canonical text are those of one script, and so of one tree. -/
theorem canonical_eq_of_render_eq (hLeft : left.Legible) (hRight : right.Legible)
    (h : left.render = right.render) : left.canonical = right.canonical := by
  obtain ⟨script, hScript⟩ := hLeft.wellFormed_canonical.exists_script
  obtain ⟨other, hOther⟩ := hRight.wellFormed_canonical.exists_script
  have hTokens : script.tokens = other.tokens := by
    rw [← hScript.stream_eq, ← hOther.stream_eq, render_canonical, render_canonical, h]
  rw [← hScript.tree_eq, ← hOther.tree_eq]
  exact hScript.grammatical.tree_eq_of_tokens_eq hOther.grammatical hTokens

/-- Programs of any size and depth have the same canonical text if and only if they are the
same, up to the tokens of expression statements. -/
theorem render_eq_iff_sameShape (hLeft : left.Legible) (hRight : right.Legible) :
    left.render = right.render ↔ left.SameShape right :=
  ⟨fun h => sameShape_of_canonical_eq (canonical_eq_of_render_eq hLeft hRight h),
    SameShape.render_eq⟩

/-- Neither of these is read again from its canonical text, which needs too many levels. -/
theorem render_ne_beyond_limit :
    (returningNegations 300).render ≠ (returningNegations 301).render := by
  have hLegible (depth : Nat) : (returningNegations depth).Legible := by
    intro statement hStatement
    obtain rfl := List.mem_singleton.mp hStatement
    exact .result (Phrase.wellFormed_negations depth)
  intro hRender
  obtain ⟨hStatement, -⟩ := List.forall₂_cons.mp
    ((render_eq_iff_sameShape (hLegible 300) (hLegible 301)).1 hRender)
  have hNeed := congrArg Expr.canonicalNeed (Option.some.inj hStatement.value_eq)
  rw [Phrase.canonicalNeed_negations, Phrase.canonicalNeed_negations] at hNeed
  omega

end Program

end LetLang
