import LetLang.Text.Line
import LetLang.Proofs.Text.Ascii

/-! Lines of text. A text that ends with a line feed is its lines with their ends,
and its bytes are split into the bytes of those lines. Whatever bytes come
behind it are split by themselves. -/
namespace LetLang.Text

namespace Line

variable {line rest : List UInt8}

/-- A byte in front belongs to the first line, unless it ends a line. -/
theorem split_cons {byte : UInt8} {bytes : List UInt8} {later : List (List UInt8)}
    (hByte : byte ≠ lineFeed) (hReturn : byte = 0x0d → bytes.head? ≠ some lineFeed)
    (h : split bytes = line :: later) : split (byte :: bytes) = (byte :: line) :: later := by
  rw [split]
  · rw [h]
  · rintro rest rfl rfl
    exact hReturn rfl rfl
  · exact hByte

/-- Bytes in front of the end of a line are that line. A carriage return among them
may not stand directly before the line feed. -/
theorem split_append {behind : List UInt8} {later : List (List UInt8)} (hLine : lineFeed ∉ line)
    (hReturn : line.getLast? = some 0x0d → behind.head? ≠ some lineFeed)
    (hBehind : split behind = [] :: later) : split (line ++ behind) = line :: later := by
  induction line with
  | nil => exact hBehind
  | cons byte line ih =>
      have hByte : byte ≠ lineFeed := by
        rintro rfl
        exact hLine List.mem_cons_self
      have hTail : lineFeed ∉ line := fun hMem => hLine (List.mem_cons_of_mem _ hMem)
      cases line with
      | nil => exact split_cons hByte (fun hLast => hReturn (congrArg some hLast)) (ih hTail nofun)
      | cons next line =>
          have hNext : next ≠ lineFeed := by
            rintro rfl
            exact hTail List.mem_cons_self
          rw [List.getLast?_cons_cons] at hReturn
          exact split_cons hByte (fun _ hHead => hNext (Option.some.inj hHead)) (ih hTail hReturn)

end Line

/-- The text is empty or ends with a line feed. -/
def EndsLine (text : String) : Prop := ∀ last ∈ text.toList.getLast?, last = '\n'

/-- A carriage return directly before a line feed belongs to the end of the line. -/
def withoutReturn (line : List Char) : List Char :=
  if line.getLast? = some '\r' then line.dropLast else line

/-- The lines of a text that ends with a line feed, without their ends. Behind the
last line feed there is no line. -/
def lines (text : String) : List String :=
  (text.toList.splitOn '\n').dropLast.map fun line => String.ofList (withoutReturn line)

theorem bytes_ofList_append_newline (line later : List Char) :
    bytes (String.ofList (line ++ '\n' :: later)) =
      bytes (String.ofList line) ++ Line.lineFeed :: bytes (String.ofList later) := by
  simp only [bytes_eq_flatMap, String.toList_ofList, List.flatMap_append, List.flatMap_cons]
  rfl

/-- No other character has the byte of a line feed in its encoding. -/
theorem lineFeed_mem_bytes_iff (line : List Char) :
    Line.lineFeed ∈ bytes (String.ofList line) ↔ '\n' ∈ line := by
  have hMark : ('\n').toNat < 128 := by decide
  have hMem := toUInt8_mem_bytes_iff hMark (String.ofList line)
  rwa [String.toList_ofList] at hMem

/-- Nor does one end in the byte of a carriage return. -/
theorem getLast?_eq_return_of_bytes {line : List Char}
    (h : (bytes (String.ofList line)).getLast? = some 0x0d) : line.getLast? = some '\r' := by
  rw [bytes_eq_flatMap, String.toList_ofList] at h
  rcases List.eq_nil_or_concat line with rfl | ⟨front, last, rfl⟩
  · cases h
  · rw [List.concat_eq_append] at h ⊢
    rw [List.flatMap_append, List.flatMap_singleton, List.getLast?_append,
      List.getLast?_eq_some_getLast String.utf8EncodeChar_ne_nil, Option.some_or] at h
    have hMem : 0x0d ∈ String.utf8EncodeChar last := by
      rw [← Option.some.inj h]
      exact List.getLast_mem _
    have hLast : last = '\r' := Char.toNat_inj.mp (toNat_eq_of_mem_encode hMem (by decide))
    rw [List.getLast?_concat, hLast]

/-- A line ends before its line feed, or before a carriage return directly before that. -/
theorem split_bytes_line {line : List Char} (hLine : '\n' ∉ line) (rest : List UInt8) :
    Line.split (bytes (String.ofList line) ++ Line.lineFeed :: rest) =
      bytes (String.ofList (withoutReturn line)) :: Line.split rest := by
  unfold withoutReturn
  split
  · next hReturn =>
      obtain ⟨front, rfl⟩ := List.getLast?_eq_some_iff.mp hReturn
      have hFront : '\n' ∉ front := fun hMem => hLine (List.mem_append_left _ hMem)
      have hBytes : bytes (String.ofList (front ++ ['\r'])) =
          bytes (String.ofList front) ++ [0x0d] := by
        rw [String.ofList_append, bytes_append]
        rfl
      rw [List.dropLast_concat, hBytes, List.append_assoc]
      exact Line.split_append (mt (lineFeed_mem_bytes_iff front).mp hFront) (fun _ => nofun) rfl
  · next hOther =>
      exact Line.split_append (mt (lineFeed_mem_bytes_iff line).mp hLine)
        (fun hReturn => absurd (getLast?_eq_return_of_bytes hReturn) hOther) rfl

/-- The first line feed ends a line, and what is behind it ends with a line feed again, or
is empty. -/
theorem EndsLine.exists_line {text : String} (h : EndsLine text) (hText : text ≠ "") :
    ∃ line later, text = String.ofList (line ++ '\n' :: later) ∧ '\n' ∉ line ∧
      EndsLine (String.ofList later) := by
  have hChars : text.toList ≠ [] := mt String.toList_eq_nil_iff.mp hText
  have hLast := h _ (List.getLast?_eq_some_getLast hChars)
  obtain ⟨line, later, hLines, hLine⟩ :=
    List.eq_append_cons_of_mem (hLast ▸ List.getLast_mem hChars)
  refine ⟨line, later, ?_, hLine, ?_⟩
  · rw [← hLines, String.ofList_toList]
  · intro last hLater
    rw [String.toList_ofList] at hLater
    obtain ⟨front, rfl⟩ := List.getLast?_eq_some_iff.mp hLater
    apply h
    rw [hLines, ← List.cons_append, ← List.append_assoc]
    exact List.getLast?_concat

/-- The step that goes with the recursion over lines; empty lines count. -/
theorem lines_line {line : List Char} (hLine : '\n' ∉ line) (later : List Char) :
    lines (String.ofList (line ++ '\n' :: later)) =
      String.ofList (withoutReturn line) :: lines (String.ofList later) := by
  rw [lines, lines, String.toList_ofList, String.toList_ofList,
    List.splitOn_append_cons_self_of_not_mem hLine,
    List.dropLast_cons_of_ne_nil (List.splitOn_ne_nil _ _), List.map_cons]

/-- Bytes behind a text that ends with a line feed are split by themselves. -/
theorem split_bytes_append {text : String} (h : EndsLine text) (rest : List UInt8) :
    Line.split (bytes text ++ rest) = (lines text).map bytes ++ Line.split rest := by
  induction hLength : text.toList.length using Nat.strongRecOn generalizing text with
  | _ length ih =>
      by_cases hText : text = ""
      · subst hText
        rfl
      · obtain ⟨line, later, rfl, hLine, hLater⟩ := h.exists_line hText
        rw [String.toList_ofList, List.length_append, List.length_cons] at hLength
        have hRest := ih later.length (by omega) hLater (by rw [String.toList_ofList])
        rw [lines_line hLine, bytes_ofList_append_newline, List.append_assoc, List.cons_append,
          split_bytes_line hLine, hRest, List.map_cons, List.cons_append]

end LetLang.Text
