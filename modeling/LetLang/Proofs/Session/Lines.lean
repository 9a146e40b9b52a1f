import LetLang.Session
import LetLang.Proofs.Text.Lines

/-! Sessions line by line. Each line is answered by itself, so a session over some
lines of text and bytes behind them is the exchanges of those lines, followed by
a session over the bytes alone. The last prompt belongs to that session. -/
namespace LetLang.Session

/-- What a session writes on account of one line: the prompt for it and its answer. -/
def exchange (config : Config) (line : String) : List String :=
  promptText config :: answer config line

/-- By induction on the lines of text, each of which is answered before the next is looked
at. -/
theorem converse_append (config : Config) (texts : List String) (later : List (List UInt8)) :
    converse config (texts.map Text.bytes ++ later) =
      ⟨texts.flatMap (exchange config) ++ (converse config later).pieces,
        (converse config later).fault⟩ := by
  induction texts with
  | nil => rfl
  | cons text texts ih =>
      rw [List.map_cons, List.cons_append, converse, Text.ofBytes?_bytes]
      simp only [ih, exchange, List.flatMap_cons, List.cons_append, List.append_assoc]

end LetLang.Session
