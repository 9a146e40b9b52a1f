import LetLang.Proofs.Token.Spelling

/-! The tokens of a source up to its first end of input. Tokenizing delivers
them and that end of input, and nothing more. -/
namespace LetLang.Lexer

/-- Whether a token is anything but an end of input. -/
def isContent (token : Token) : Bool := token.kind != .eof

/-- Ends of input among the tokens come from NUL bytes only. -/
theorem isContent_of_mem_stream {bytes : List UInt8} (hNul : 0 ∉ bytes) {token : Token}
    (h : token ∈ stream bytes) : isContent token = true := by
  simpa [isContent] using kind_ne_eof_of_mem_stream hNul h

/-- Content in front of an end of input, or of nothing, is all there is before the end. -/
theorem takeWhile_isContent_append {content rest : List Token}
    (hContent : ∀ token ∈ content, isContent token = true)
    (hRest : ∀ token ∈ rest.head?, token.kind = .eof) :
    (content ++ rest).takeWhile isContent = content := by
  rw [List.takeWhile_append_of_pos hContent]
  cases rest with
  | nil => rw [List.takeWhile_nil, List.append_nil]
  | cons token rest =>
      rw [List.takeWhile_cons_of_neg (by simp [isContent, hRest token rfl]), List.append_nil]

theorem stream_of_next {lexer : Lexer} (h : lexer.next.1.kind ≠ .eof) :
    stream lexer.ahead = lexer.next.1 :: stream lexer.next.2.ahead := by
  unfold next at h ⊢
  cases hRead : Lexeme.read? lexer.ahead with
  | none => simp [hRead, Token.eof] at h
  | some lexeme => exact stream_of_read?_eq_some hRead

/-- The next token is the first of those ahead. Past the last of them it is an end
of input, and there is nothing left. -/
theorem next_fst (lexer : Lexer) : lexer.next.1 = (stream lexer.ahead).headD .eof := by
  unfold next
  cases hRead : Lexeme.read? lexer.ahead with
  | none => rw [stream_of_read?_eq_none hRead]; rfl
  | some lexeme => rw [stream_of_read?_eq_some hRead]; rfl

theorem next_ofString (source : String) :
    (ofString source).next.1 = (stream (Text.bytes source)).headD .eof :=
  next_fst (ofString source)

/-- Past the last token the lexer stays there, with none ahead. -/
theorem stream_next_snd (lexer : Lexer) :
    stream lexer.next.2.ahead = (stream lexer.ahead).tail := by
  unfold next
  cases hRead : Lexeme.read? lexer.ahead with
  | none => rw [stream_of_read?_eq_none hRead, List.tail_nil, stream_of_read?_eq_none rfl]
  | some lexeme => rw [stream_of_read?_eq_some hRead, List.tail_cons]

/-- The only end of input that the lexer delivers is the token without text. -/
theorem next_eq_eof {lexer : Lexer} (h : lexer.next.1.kind = .eof) : lexer.next.1 = .eof := by
  unfold next at h ⊢
  cases hRead : Lexeme.read? lexer.ahead with
  | none => rfl
  | some lexeme =>
      rw [hRead] at h
      exact (Lexeme.spelled_read? hRead).eq_eof h

/-- Either a NUL is next or no token is left; in both cases nothing comes before the
end. -/
theorem takeWhile_stream_of_eof {lexer : Lexer} (h : lexer.next.1.kind = .eof) :
    (stream lexer.ahead).takeWhile isContent = [] := by
  unfold next at h
  cases hRead : Lexeme.read? lexer.ahead with
  | none => rw [stream_of_read?_eq_none hRead, List.takeWhile_nil]
  | some lexeme =>
      simp only [hRead] at h
      rw [stream_of_read?_eq_some hRead, List.takeWhile_cons_of_neg (by simp [isContent, h])]

/-- The recursion stops where the stream has its first end of input, or has nothing
more. -/
theorem tokenize_fst (lexer : Lexer) :
    lexer.tokenize.1 = (stream lexer.ahead).takeWhile isContent ++ [.eof] := by
  fun_induction tokenize lexer with
  | case1 lexer hEof => rw [next_eq_eof hEof, takeWhile_stream_of_eof hEof, List.nil_append]
  | case2 lexer hContent later ih =>
      rw [stream_of_next hContent, List.takeWhile_cons_of_pos (by simpa [isContent] using hContent),
        List.cons_append, ← ih]

end LetLang.Lexer
