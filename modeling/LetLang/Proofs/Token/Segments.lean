import Mathlib.Data.List.TakeDrop
import LetLang.Proofs.Token.Scanner

/-! Segments. NUL characters separate a source into segments. A lexer delivers the tokens of
one segment after another, each with an end of input behind it, and then ends of input for
ever. Single tokens and whole segments can be asked of it in any order: each call takes the
tokens that come next. -/
namespace LetLang

namespace Text

/-- The texts between the NUL characters of a text. Without any it is its only segment. -/
def segments (text : String) : List String :=
  (text.toList.splitOn '\x00').map String.ofList

theorem segments_of_notMem {text : String} (h : '\x00' ∉ text.toList) : segments text = [text] := by
  rw [segments, List.splitOn_eq_singleton h, List.map_singleton, String.ofList_toList]

/-- A NUL always ends a segment, so two of them have an empty one between them. -/
theorem segments_append {before : String} (h : '\x00' ∉ before.toList) (after : String) :
    segments (before ++ "\x00" ++ after) = before :: segments after := by
  have hText : (before ++ "\x00" ++ after).toList = before.toList ++ '\x00' :: after.toList := by
    simp
  rw [segments, hText, List.splitOn_append_cons_self_of_not_mem h, List.map_cons,
    String.ofList_toList, segments]

/-- A text is its only segment, or it is a first segment, a NUL, and a text behind it. -/
theorem segments_induction {motive : String → Prop}
    (alone : ∀ text, '\x00' ∉ text.toList → motive text)
    (append : ∀ before after, '\x00' ∉ before.toList → motive after →
      motive (before ++ "\x00" ++ after)) (text : String) : motive text := by
  induction hLength : text.toList.length using Nat.strongRecOn generalizing text with
  | _ length ih =>
      by_cases hNul : '\x00' ∈ text.toList
      · obtain ⟨before, after, hText, hBefore⟩ := List.eq_append_cons_of_mem hNul
        have hParts : text = String.ofList before ++ "\x00" ++ String.ofList after := by
          apply String.toList_inj.mp
          simpa using hText
        rw [hText, List.length_append, List.length_cons] at hLength
        rw [hParts]
        refine append _ _ (by rwa [String.toList_ofList]) (ih after.length (by omega) _ ?_)
        rw [String.toList_ofList]
      · exact alone text hNul

theorem nul_notMem_of_mem_segments {text segment : String} (h : segment ∈ segments text) :
    '\x00' ∉ segment.toList := by
  induction text using segments_induction with
  | alone text hNul =>
      rw [segments_of_notMem hNul] at h
      rwa [List.mem_singleton.mp h]
  | append before after hBefore ih =>
      rw [segments_append hBefore] at h
      rcases List.mem_cons.mp h with rfl | hLater
      · exact hBefore
      · exact ih hLater

end Text

namespace Lexer

/-- What can be asked of a lexer. -/
inductive Call where
  /-- One token. -/
  | next
  /-- The tokens up to the next end of input, and that with them. -/
  | tokenize
deriving DecidableEq

/-- What some calls deliver, each from the state in which the one before it left. -/
def Call.deliveries {State : Type} (next : State → Token × State)
    (tokenize : State → List Token × State) : List Call → State → List (List Token)
  | [], _ => []
  | .next :: calls, state => [(next state).1] :: deliveries next tokenize calls (next state).2
  | .tokenize :: calls, state =>
      (tokenize state).1 :: deliveries next tokenize calls (tokenize state).2

/-- The state in which some calls leave. -/
def Call.stateAfter {State : Type} (next : State → Token × State)
    (tokenize : State → List Token × State) : List Call → State → State
  | [], state => state
  | .next :: calls, state => stateAfter next tokenize calls (next state).2
  | .tokenize :: calls, state => stateAfter next tokenize calls (tokenize state).2

/-- Related states that deliver the same to every call, and are related again behind it,
deliver the same to all calls. -/
theorem Call.deliveries_eq_of_related {State Other : Type} (Related : State → Other → Prop)
    {next : State → Token × State} {tokenize : State → List Token × State}
    {nextOther : Other → Token × Other} {tokenizeOther : Other → List Token × Other}
    (hNext : ∀ state other, Related state other →
      (next state).1 = (nextOther other).1 ∧ Related (next state).2 (nextOther other).2)
    (hTokenize : ∀ state other, Related state other →
      (tokenize state).1 = (tokenizeOther other).1 ∧
        Related (tokenize state).2 (tokenizeOther other).2)
    (calls : List Call) {state : State} {other : Other} (h : Related state other) :
    deliveries next tokenize calls state = deliveries nextOther tokenizeOther calls other ∧
      Related (stateAfter next tokenize calls state)
        (stateAfter nextOther tokenizeOther calls other) := by
  induction calls generalizing state other with
  | nil => exact ⟨rfl, h⟩
  | cons call calls ih =>
      cases call with
      | next =>
          obtain ⟨hToken, hLater⟩ := hNext state other h
          obtain ⟨hDelivered, hRelated⟩ := ih hLater
          exact ⟨congrArg₂ List.cons (congrArg (fun token => [token]) hToken) hDelivered, hRelated⟩
      | tokenize =>
          obtain ⟨hTokens, hLater⟩ := hTokenize state other h
          obtain ⟨hDelivered, hRelated⟩ := ih hLater
          exact ⟨congrArg₂ List.cons hTokens hDelivered, hRelated⟩

def deliveries (calls : List Call) (lexer : Lexer) : List (List Token) :=
  Call.deliveries Lexer.next Lexer.tokenize calls lexer

def after (calls : List Call) (lexer : Lexer) : Lexer :=
  Call.stateAfter Lexer.next Lexer.tokenize calls lexer

/-- What a call may deliver at all. -/
inductive Call.MayDeliver : Call → List Token → Prop where
  | next (token : Token) : MayDeliver .next [token]
  | tokenize {tokens : List Token} (hContent : ∀ token ∈ tokens, token.kind ≠ .eof) :
      MayDeliver .tokenize (tokens ++ [.eof])

/-- A call takes tokens from the front of some tokens. Behind the last of those there are
ends of input, as many as are asked for. -/
structure Call.Takes (call : Call) (tokens delivered later : List Token) : Prop where
  mayDeliver : call.MayDeliver delivered
  delivered_eq : delivered = tokens.takeD delivered.length .eof
  later_eq : later = tokens.drop delivered.length

/-- Past the last token a call takes nothing, and is given an end of input. -/
theorem takes_next (lexer : Lexer) :
    Call.Takes .next (stream lexer.ahead) [lexer.next.1] (stream lexer.next.2.ahead) where
  mayDeliver := .next lexer.next.1
  delivered_eq := by
    rw [next_fst, List.headD_eq_head?_getD, List.length_singleton, List.takeD_succ,
      List.takeD_zero]
  later_eq := by
    rw [stream_next_snd, List.length_singleton, List.drop_one]

/-- The end of input that tokenizing stops at is taken with the rest. -/
theorem stream_tokenize_snd (lexer : Lexer) :
    stream lexer.tokenize.2.ahead =
      (stream lexer.ahead).drop (((stream lexer.ahead).takeWhile isContent).length + 1) := by
  fun_induction tokenize lexer with
  | case1 lexer hEof =>
      rw [takeWhile_stream_of_eof hEof, stream_next_snd, List.length_nil, Nat.zero_add,
        List.drop_one]
  | case2 lexer hContent later ih =>
      rw [stream_of_next hContent, List.takeWhile_cons_of_pos (by simpa [isContent] using hContent),
        List.length_cons, List.drop_succ_cons, ← ih]

/-- What stands behind the content, or behind the last token, is an end of input. -/
theorem headD_dropWhile_stream (bytes : List UInt8) :
    ((stream bytes).dropWhile isContent).head?.getD .eof = .eof := by
  cases hRest : (stream bytes).dropWhile isContent with
  | nil => rfl
  | cons token rest =>
      have hHead := List.head?_dropWhile_not isContent (stream bytes)
      rw [hRest] at hHead
      have hMem : token ∈ stream bytes :=
        (List.dropWhile_sublist _).mem (hRest ▸ List.mem_cons_self)
      exact (spelled_of_mem_stream hMem).eq_eof (by simpa [isContent] using hHead)

/-- One token more than there are is taken from what follows, or is an end of input. -/
theorem takeD_append_one (tokens rest : List Token) :
    (tokens ++ rest).takeD (tokens.length + 1) .eof = tokens ++ [rest.head?.getD .eof] := by
  induction tokens with
  | nil => rw [List.nil_append, List.length_nil, List.takeD_succ, List.takeD_zero, List.nil_append]
  | cons token tokens ih =>
      rw [List.cons_append, List.length_cons, List.takeD_succ, List.tail_cons, ih]
      rfl

theorem takes_tokenize (lexer : Lexer) :
    Call.Takes .tokenize (stream lexer.ahead) lexer.tokenize.1 (stream lexer.tokenize.2.ahead) where
  mayDeliver := by
    rw [tokenize_fst]
    refine .tokenize fun token hToken => ?_
    simpa [isContent] using List.mem_takeWhile_imp hToken
  delivered_eq := by
    have hSplit := takeD_append_one ((stream lexer.ahead).takeWhile isContent)
      ((stream lexer.ahead).dropWhile isContent)
    rw [List.takeWhile_append_dropWhile, headD_dropWhile_stream] at hSplit
    rw [tokenize_fst, List.length_append, List.length_singleton, hSplit]
  later_eq := by
    rw [tokenize_fst, stream_tokenize_snd, List.length_append, List.length_singleton]

theorem takeD_add (first second : Nat) (tokens : List Token) :
    tokens.takeD (first + second) .eof =
      tokens.takeD first .eof ++ (tokens.drop first).takeD second .eof := by
  induction first generalizing tokens with
  | zero => rw [Nat.zero_add, List.takeD_zero, List.nil_append, List.drop_zero]
  | succ first ih =>
      rw [Nat.add_right_comm, List.takeD_succ, List.takeD_succ, ih, ← List.drop_one,
        List.drop_drop, Nat.add_comm 1, List.cons_append]

/-- One more end of input makes no difference to ends of input without end. -/
theorem takeD_append_eof (count : Nat) (tokens : List Token) :
    (tokens ++ [Token.eof]).takeD count .eof = tokens.takeD count .eof := by
  induction count generalizing tokens with
  | zero => rw [List.takeD_zero, List.takeD_zero]
  | succ count ih =>
      rw [List.takeD_succ, List.takeD_succ]
      cases tokens with
      | nil => rfl
      | cons token tokens => exact congrArg (token :: ·) (ih tokens)

/-- What some calls deliver is what each of them may deliver, and taken together the tokens
that come next, in order and with none left out. -/
structure InOrder (tokens : List Token) (calls : List Call) (delivered : List (List Token)) :
    Prop where
  mayDeliver : List.Forall₂ Call.MayDeliver calls delivered
  flatten_eq : delivered.flatten = tokens.takeD delivered.flatten.length .eof

theorem Call.Takes.inOrder {call : Call} {calls : List Call} {tokens first later : List Token}
    {delivered : List (List Token)} (h : call.Takes tokens first later)
    (hLater : InOrder later calls delivered) :
    InOrder tokens (call :: calls) (first :: delivered) where
  mayDeliver := .cons h.mayDeliver hLater.mayDeliver
  flatten_eq := by
    rw [List.flatten_cons, List.length_append, takeD_add, ← h.delivered_eq, ← h.later_eq,
      ← hLater.flatten_eq]

/-- Whatever is asked of a lexer, the tokens ahead are delivered in order. No call leaves
one out or delivers one again. -/
theorem inOrder_deliveries (calls : List Call) (lexer : Lexer) :
    InOrder (stream lexer.ahead) calls (deliveries calls lexer) := by
  induction calls generalizing lexer with
  | nil => exact ⟨.nil, (List.takeD_zero _ _).symm⟩
  | cons call calls ih =>
      cases call with
      | next => exact (takes_next lexer).inOrder (ih lexer.next.2)
      | tokenize => exact (takes_tokenize lexer).inOrder (ih lexer.tokenize.2)

/-- The end of input behind the last token is like all that come later, so it may be listed
or not. -/
theorem InOrder.append_eof {tokens : List Token} {calls : List Call}
    {delivered : List (List Token)} (h : InOrder tokens calls delivered) :
    InOrder (tokens ++ [.eof]) calls delivered :=
  ⟨h.mayDeliver, h.flatten_eq.trans (takeD_append_eof _ tokens).symm⟩

/-- The tokens of one segment and the end of input behind them, and ends of input alone where
there is no segment left. -/
def tokensOfSegment (segments : List String) (index : Nat) : List Token :=
  (segments[index]?.map fun segment => (ofString segment).tokenize.1).getD [.eof]

/-- What is delivered up to the end of the last segment. -/
def tokensOfAll (segments : List String) : List Token :=
  segments.flatMap fun segment => (ofString segment).tokenize.1

/-- A text without NUL characters is delivered in one call, with one end of input behind
it. -/
theorem tokenize_of_nul_notMem {segment : String} (h : '\x00' ∉ segment.toList) :
    (ofString segment).tokenize.1 = stream (Text.bytes segment) ++ [.eof] := by
  rw [tokenize_ofString, beforeNul_bytes h]

/-- Every NUL is the end of input that ends a segment, and the end of the source is that of
the last. -/
theorem stream_append_eof (source : String) :
    stream (Text.bytes source) ++ [.eof] = tokensOfAll (Text.segments source) := by
  induction source using Text.segments_induction with
  | alone text hNul =>
      rw [Text.segments_of_notMem hNul, tokensOfAll, List.flatMap_singleton,
        tokenize_of_nul_notMem hNul]
  | append before after hBefore ih =>
      rw [stream_append_nul, Text.segments_append hBefore, tokensOfAll,
        List.flatMap_cons, tokenize_of_nul_notMem hBefore, ← tokensOfAll, ← ih]
      simp

/-- Tokenizing stops at the first end of input, or where there are no tokens left. -/
theorem tokenize_of_stream_eq {lexer : Lexer} {content rest : List Token}
    (hStream : stream lexer.ahead = content ++ rest)
    (hContent : ∀ token ∈ content, isContent token = true)
    (hRest : ∀ token ∈ rest.head?, token.kind = .eof) :
    lexer.tokenize.1 = content ++ [.eof] ∧ stream lexer.tokenize.2.ahead = rest.tail := by
  have hTake : (stream lexer.ahead).takeWhile isContent = content := by
    rw [hStream, takeWhile_isContent_append hContent hRest]
  refine ⟨by rw [tokenize_fst, hTake], ?_⟩
  rw [stream_tokenize_snd, hTake, hStream, ← List.drop_drop, List.drop_left, List.drop_one]

theorem isContent_of_mem_segment {segment : String} (h : '\x00' ∉ segment.toList) :
    ∀ token ∈ stream (Text.bytes segment), isContent token = true :=
  fun _ => isContent_of_mem_stream (mt (Text.zero_mem_bytes_iff segment).mp h)

/-- One call to tokenize, and what is delivered behind it. -/
theorem deliveries_replicate_succ {lexer : Lexer} {content rest : List Token}
    (hStream : stream lexer.ahead = content ++ rest)
    (hContent : ∀ token ∈ content, isContent token = true)
    (hRest : ∀ token ∈ rest.head?, token.kind = .eof) {count : Nat}
    {delivered : Nat → List Token} (hFirst : delivered 0 = content ++ [.eof])
    (hLater : ∀ later : Lexer, stream later.ahead = rest.tail →
      deliveries (List.replicate count .tokenize) later =
        (List.range count).map fun index => delivered (index + 1)) :
    deliveries (List.replicate (count + 1) .tokenize) lexer =
      (List.range (count + 1)).map delivered := by
  obtain ⟨hTokens, hTail⟩ := tokenize_of_stream_eq hStream hContent hRest
  have hBehind := hLater lexer.tokenize.2 hTail
  rw [List.range_succ_eq_map, List.map_cons, List.map_map, hFirst, ← hTokens]
  exact congrArg (lexer.tokenize.1 :: ·) hBehind

/-- Without tokens ahead every call delivers an end of input and nothing else. -/
theorem deliveries_tokenize_of_stream_eq_nil {lexer : Lexer} (h : stream lexer.ahead = [])
    (count : Nat) :
    deliveries (List.replicate count .tokenize) lexer = (List.range count).map fun _ => [.eof] := by
  induction count generalizing lexer with
  | zero => rfl
  | succ count ih =>
      have hParts : stream lexer.ahead = [] ++ [] := h
      exact deliveries_replicate_succ hParts nofun nofun rfl
        fun later hLater => ih hLater

/-- Repeated tokenizing delivers one segment after another, and then ends of input. -/
theorem deliveries_tokenize {lexer : Lexer} {source : String}
    (h : stream lexer.ahead = stream (Text.bytes source)) (count : Nat) :
    deliveries (List.replicate count .tokenize) lexer =
      (List.range count).map (tokensOfSegment (Text.segments source)) := by
  induction source using Text.segments_induction generalizing lexer count with
  | alone text hNul =>
      rw [Text.segments_of_notMem hNul]
      cases count with
      | zero => rfl
      | succ count =>
          exact deliveries_replicate_succ (h.trans (List.append_nil _).symm)
            (isContent_of_mem_segment hNul) nofun (tokenize_of_nul_notMem hNul)
            fun later hLater => deliveries_tokenize_of_stream_eq_nil hLater count
  | append before after hBefore ih =>
      rw [Text.segments_append hBefore]
      cases count with
      | zero => rfl
      | succ count =>
          rw [stream_append_nul] at h
          exact deliveries_replicate_succ h (isContent_of_mem_segment hBefore)
            (by simp [Token.eof]) (tokenize_of_nul_notMem hBefore)
            fun later hLater => ih hLater count

/-- Token by token there is no trace of segments but the ends of input among the
tokens. -/
theorem deliveries_next (lexer : Lexer) (count : Nat) :
    deliveries (List.replicate count .next) lexer =
      ((stream lexer.ahead).takeD count .eof).map fun token => [token] := by
  induction count generalizing lexer with
  | zero =>
      rw [List.takeD_zero]
      rfl
  | succ count ih =>
      have hLater := ih lexer.next.2
      rw [stream_next_snd] at hLater
      rw [List.takeD_succ, List.map_cons, ← hLater, ← List.headD_eq_head?_getD, ← next_fst]
      rfl

end Lexer

/-- What some calls deliver to whoever reads the source by index. -/
def Scanner.deliveries (calls : List Lexer.Call) (scanner : Scanner) : List (List Token) :=
  Lexer.Call.deliveries Scanner.next Scanner.tokenize calls scanner

def Scanner.after (calls : List Lexer.Call) (scanner : Scanner) : Scanner :=
  Lexer.Call.stateAfter Scanner.next Scanner.tokenize calls scanner

/-- A scanner and a lexer in the same state deliver the same to any calls, and are in the
same state afterwards. -/
theorem Scanner.Tracks.calls {scanner : Scanner} {lexer : Lexer} (h : scanner.Tracks lexer)
    (calls : List Lexer.Call) :
    scanner.deliveries calls = lexer.deliveries calls ∧
      (scanner.after calls).Tracks (lexer.after calls) :=
  Lexer.Call.deliveries_eq_of_related Scanner.Tracks (fun _ _ hTracks => hTracks.next)
    (fun _ _ hTracks => hTracks.tokenize) calls h

theorem Scanner.Tracks.deliveries_eq {scanner : Scanner} {lexer : Lexer} (h : scanner.Tracks lexer)
    (calls : List Lexer.Call) : scanner.deliveries calls = lexer.deliveries calls :=
  (h.calls calls).1

namespace Lexer

/-- NUL characters split a source into segments. A lexer, whether it goes by index or by the
bytes ahead, delivers one segment after another if it is told to tokenize again and again, and
ends of input behind the last of them. Token by token it delivers the same, and whatever is
asked of it in whatever order, each call takes what comes next. -/
theorem deliveries_segments (source : String) :
    (∀ segment ∈ Text.segments source, '\x00' ∉ segment.toList ∧
      ∃ tokens, (ofString segment).tokenize.1 = tokens ++ [.eof] ∧
        ∀ token ∈ tokens, token.kind ≠ .eof) ∧
    (∀ count, (ofString source).deliveries (List.replicate count .tokenize) =
      (List.range count).map (tokensOfSegment (Text.segments source))) ∧
    (∀ count, (ofString source).deliveries (List.replicate count .next) =
      ((tokensOfAll (Text.segments source)).takeD count .eof).map fun token => [token]) ∧
    (∀ calls,
      InOrder (tokensOfAll (Text.segments source)) calls ((ofString source).deliveries calls)) ∧
    ∀ calls, (Scanner.ofString source).deliveries calls = (ofString source).deliveries calls := by
  refine ⟨fun segment hSegment => ?_, fun count => deliveries_tokenize rfl count, fun count => ?_,
    fun calls => ?_, (Scanner.tracks_ofString source).deliveries_eq⟩
  · have hNul := Text.nul_notMem_of_mem_segments hSegment
    refine ⟨hNul, _, tokenize_of_nul_notMem hNul, fun token hToken => ?_⟩
    simpa [isContent] using isContent_of_mem_segment hNul token hToken
  · rw [← stream_append_eof, takeD_append_eof]
    exact deliveries_next (ofString source) count
  · rw [← stream_append_eof]
    exact (inOrder_deliveries calls (ofString source)).append_eof

end Lexer

end LetLang
