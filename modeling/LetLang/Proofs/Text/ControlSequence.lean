import Mathlib.Data.List.Forall2
import Mathlib.Data.List.TakeWhile
import LetLang.Text.Style
import LetLang.Proofs.Text.Ascii

/-! Control sequences. Terminals take an escape character and a bracket, numbers with
semicolons between them, and an `m` as a change of style. One text decorates another if
deleting these sequences turns it into the other wherever it stands: nothing in it becomes
part of a sequence with what comes behind. -/
namespace LetLang.Text

variable {text later rest : List UInt8} {byte : UInt8}

def isParameter (byte : UInt8) : Bool := (bytes "0123456789;").contains byte

/-- An escape byte and a bracket, digits and semicolons, and an `m`. -/
def IsControlSequence (sequence : List UInt8) : Prop :=
  ∃ parameters, (∀ byte ∈ parameters, isParameter byte = true) ∧
    sequence = 0x1b :: 0x5b :: (parameters ++ [0x6d])

/-- What comes behind a control sequence that the bytes start with. -/
def behindSequence? : List UInt8 → Option (List UInt8)
  | 0x1b :: 0x5b :: rest =>
      match rest.dropWhile isParameter with
      | 0x6d :: later => some later
      | _ => none
  | _ => none

/-- The `m` is no parameter, so there is only one place where a sequence can end. -/
theorem behindSequence?_append {sequence : List UInt8} (h : IsControlSequence sequence)
    (rest : List UInt8) : behindSequence? (sequence ++ rest) = some rest := by
  obtain ⟨parameters, hParameters, rfl⟩ := h
  have hRest : (parameters ++ [0x6d] ++ rest).dropWhile isParameter = 0x6d :: rest := by
    rw [List.append_assoc, List.dropWhile_append_of_pos hParameters]
    exact List.dropWhile_cons_of_neg (by decide)
  simp only [List.cons_append, behindSequence?, hRest]

/-- What was dropped to get behind the sequence is the sequence. -/
theorem exists_sequence_of_behindSequence? (h : behindSequence? text = some later) :
    ∃ sequence, IsControlSequence sequence ∧ text = sequence ++ later := by
  unfold behindSequence? at h
  split at h
  · next rest =>
      split at h
      · next later hRest =>
          obtain rfl := Option.some.inj h
          refine ⟨_, ⟨rest.takeWhile isParameter, fun _ => List.mem_takeWhile_imp, rfl⟩, ?_⟩
          have hParts := List.takeWhile_append_dropWhile (p := isParameter) (l := rest)
          rw [hRest] at hParts
          simp [hParts]
      · cases h
  · cases h

/-- A sequence is found exactly where there is one. -/
theorem behindSequence?_eq_some_iff :
    behindSequence? text = some later ↔
      ∃ sequence, IsControlSequence sequence ∧ text = sequence ++ later := by
  constructor
  · exact exists_sequence_of_behindSequence?
  · rintro ⟨sequence, hSequence, rfl⟩
    exact behindSequence?_append hSequence later

/-- Even the shortest sequence has three bytes, so deleting comes to an end. -/
theorem length_lt_of_behindSequence? (h : behindSequence? text = some later) :
    later.length < text.length := by
  obtain ⟨sequence, ⟨parameters, -, rfl⟩, rfl⟩ := behindSequence?_eq_some_iff.mp h
  simp only [List.length_append, List.length_cons]
  omega

/-- Delete every control sequence, from left to right. -/
def strip : List UInt8 → List UInt8
  | [] => []
  | byte :: rest =>
      match _h : behindSequence? (byte :: rest) with
      | some later => strip later
      | none => byte :: strip rest
termination_by text => text.length
decreasing_by
  · exact length_lt_of_behindSequence? (by assumption)
  · exact Nat.lt_succ_self _

/-- A sequence is deleted, and deleting goes on behind it. Bytes before it and behind it
never make up a new one. -/
theorem strip_sequence_append {sequence : List UInt8} (h : IsControlSequence sequence)
    (rest : List UInt8) : strip (sequence ++ rest) = strip rest := by
  have hBehind : behindSequence? (sequence ++ rest) = some rest :=
    behindSequence?_eq_some_iff.mpr ⟨sequence, h, rfl⟩
  obtain ⟨parameters, -, rfl⟩ := h
  rw [List.cons_append] at hBehind ⊢
  rw [strip]
  split <;> simp_all

theorem strip_cons_of_none (h : behindSequence? (byte :: rest) = none) :
    strip (byte :: rest) = byte :: strip rest := by
  rw [strip]
  split <;> simp_all

/-- Sequences start with an escape character, so any other byte is kept. -/
theorem strip_cons (h : byte ≠ 0x1b) (rest : List UInt8) :
    strip (byte :: rest) = byte :: strip rest := by
  apply strip_cons_of_none
  unfold behindSequence?
  split
  · next hText => exact absurd (List.cons.inj hText).1 h
  · rfl

/-- An escape character that no bracket follows is no part of a sequence. -/
theorem strip_escape_cons {next : UInt8} (h : next ≠ 0x5b) (rest : List UInt8) :
    strip (0x1b :: next :: rest) = 0x1b :: strip (next :: rest) := by
  apply strip_cons_of_none
  unfold behindSequence?
  split
  · next hText => exact absurd (List.cons.inj (List.cons.inj hText).2).1 h
  · rfl

/-- One text is the other with control sequences put into it, whatever comes behind. -/
def Decorates (decorated plain : String) : Prop :=
  ∀ rest, strip (bytes decorated ++ rest) = bytes plain ++ strip rest

/-- Decorations may be put one behind another. This is why the definition speaks of all that
may come behind. -/
theorem Decorates.append {first firstPlain second secondPlain : String}
    (hFirst : Decorates first firstPlain) (hSecond : Decorates second secondPlain) :
    Decorates (first ++ second) (firstPlain ++ secondPlain) := by
  intro rest
  rw [bytes_append, bytes_append, List.append_assoc, hFirst, hSecond, List.append_assoc]

theorem decorates_empty : Decorates "" "" := fun _ => rfl

theorem Decorates.strip_bytes {decorated plain : String} (h : Decorates decorated plain) :
    strip (bytes decorated) = bytes plain := by
  have hAlone := h []
  rwa [List.append_nil, strip, List.append_nil] at hAlone

/-- Texts that are written one after another may be compared one by one. -/
theorem decorates_join {decorated plain : List String}
    (h : List.Forall₂ Decorates decorated plain) :
    Decorates (String.join decorated) (String.join plain) := by
  induction h with
  | nil => exact decorates_empty
  | cons hFirst hLater ih =>
      rw [String.join_cons, String.join_cons]
      exact hFirst.append ih

/-- Nothing is deleted from a text without escape characters. -/
theorem decorates_self {text : String} (h : '\x1b' ∉ text.toList) : Decorates text text := by
  have hMark : ('\x1b').toNat < 128 := by decide
  have hBytes : 0x1b ∉ bytes text := mt (toUInt8_mem_bytes_iff hMark text).mp h
  intro rest
  generalize bytes text = text at hBytes
  induction text with
  | nil => rfl
  | cons byte text ih =>
      have hByte : byte ≠ 0x1b := fun hEscape => hBytes (hEscape ▸ List.mem_cons_self)
      rw [List.cons_append, strip_cons hByte, ih fun hMem => hBytes (List.mem_cons_of_mem _ hMem)]
      rfl

theorem Decorates.line {decorated plain : String} (h : Decorates decorated plain) :
    Decorates (decorated ++ "\n") (plain ++ "\n") :=
  h.append (decorates_self (by decide))

theorem decorates_sequence {parameters : String}
    (h : (bytes parameters).all isParameter = true) :
    Decorates (Style.escape ++ parameters ++ "m") "" := by
  have hSequence : IsControlSequence (bytes (Style.escape ++ parameters ++ "m")) := by
    refine ⟨bytes parameters, List.all_eq_true.mp h, ?_⟩
    rw [bytes_append, bytes_append]
    rfl
  exact strip_sequence_append hSequence

namespace Style

/-- Nothing of the style is left when control sequences are deleted. -/
structure Transparent (style : Style) : Prop where
  opening : Decorates style.opening ""
  closing : Decorates style.closing ""

theorem Transparent.of_mem_some {style other : Style} (h : style.Transparent)
    (hOther : other ∈ some style) : other.Transparent := by
  rwa [← Option.some.inj hOther]

/-- A style goes around the text, so nothing is said of styles within styles. -/
theorem Transparent.decorates_apply {style : Style} (h : style.Transparent) {text : String}
    (hText : Decorates text text) : Decorates (style.apply text) text := by
  have hStyled := (h.opening.append hText).append h.closing
  rwa [String.empty_append, String.append_empty] at hStyled

/-- Both ends of a colour are sequences if the number of the colour is made of digits. -/
theorem transparent_foreground {number : String}
    (h : (bytes number).all isParameter = true) : (foreground number).Transparent where
  opening := by
    have hOpening : (foreground number).opening = escape ++ ("38;5;" ++ number) ++ "m" :=
      congrArg (· ++ "m") String.append_assoc
    have hPalette : (bytes "38;5;").all isParameter = true := by decide
    rw [hOpening]
    refine decorates_sequence ?_
    rw [bytes_append, List.all_append, hPalette, h]
    rfl
  closing := by
    have hDefault : Decorates (escape ++ "39" ++ "m") "" := decorates_sequence (by decide)
    exact hDefault

theorem transparent_red : red.Transparent := transparent_foreground (by decide)

theorem transparent_yellow : yellow.Transparent := transparent_foreground (by decide)

theorem transparent_blue : blue.Transparent := transparent_foreground (by decide)

/-- Colour and weight of the prompt are two sequences side by side, and one sequence ends
both. -/
theorem transparent_prompt : prompt.Transparent where
  opening := by
    have hColour : Decorates (escape ++ "38;5;2" ++ "m") "" := decorates_sequence (by decide)
    have hBold : Decorates (escape ++ "1" ++ "m") "" := decorates_sequence (by decide)
    exact hColour.append hBold
  closing := by
    have hReset : Decorates (escape ++ "0" ++ "m") "" := decorates_sequence (by decide)
    exact hReset

end Style

end LetLang.Text
