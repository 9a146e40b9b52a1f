import LetLang.Session.Transcript

/-! Outputs that take bytes write by write. An output with limited room takes of a
write what it has room for, and whoever writes goes on with the rest until
nothing of it is taken. Writings follow one another up to the first fault. A
limited output then holds a beginning of what an unlimited one would hold. -/
namespace LetLang

/-- The bytes taken so far, and how many more there is room for, if that is limited. -/
structure Output where
  room : Option Nat
  taken : List UInt8
deriving DecidableEq

namespace Output

/-- How many of some bytes one write takes, from the first on. -/
def accepted (output : Output) (bytes : List UInt8) : Nat :=
  match output.room with
  | none => bytes.length
  | some room => min room bytes.length

/-- The output after one write. -/
def write (output : Output) (bytes : List UInt8) : Output where
  room := output.room.map (· - output.accepted bytes)
  taken := output.taken ++ bytes.take (output.accepted bytes)

/-- One write takes all of the bytes. -/
def Fits (output : Output) (bytes : List UInt8) : Prop := output.accepted bytes = bytes.length

instance (output : Output) (bytes : List UInt8) : Decidable (output.Fits bytes) :=
  inferInstanceAs (Decidable (_ = _))

section Write

variable (taken bytes : List UInt8) (room : Nat)

@[simp] theorem write_none : write ⟨none, taken⟩ bytes = ⟨none, taken ++ bytes⟩ := by
  simp [write, accepted]

@[simp] theorem write_some :
    write ⟨some room, taken⟩ bytes = ⟨some (room - bytes.length), taken ++ bytes.take room⟩ := by
  rw [write, accepted, Option.map_some, ← Nat.sub_eq_sub_min, ← List.take_eq_take_min]

@[simp] theorem fits_none : Fits ⟨none, taken⟩ bytes := rfl

@[simp] theorem fits_some : Fits ⟨some room, taken⟩ bytes ↔ bytes.length ≤ room := by
  simp only [Fits, accepted]
  omega

end Write

variable (output : Output) (first second : List UInt8)

theorem write_nil : output.write [] = output := by
  obtain ⟨_ | room, taken⟩ := output <;> simp

theorem fits_nil : output.Fits [] := by
  obtain ⟨_ | room, taken⟩ := output <;> simp

/-- Two writes take what one write of both takes. -/
theorem write_append : output.write (first ++ second) = (output.write first).write second := by
  obtain ⟨_ | room, taken⟩ := output
  · simp
  · simp [List.take_append, Nat.sub_sub]

theorem fits_append :
    output.Fits (first ++ second) ↔ output.Fits first ∧ (output.write first).Fits second := by
  obtain ⟨_ | room, taken⟩ := output
  · simp
  · simp only [fits_some, write_some, List.length_append]
    omega

/-- An output that does not take all of the bytes is full. -/
theorem write_write_of_not_fits (h : ¬ output.Fits first) :
    (output.write first).write second = output.write first := by
  obtain ⟨_ | room, taken⟩ := output
  · exact absurd (fits_none taken first) h
  · have hFull : room - first.length = 0 := by
      rw [fits_some] at h
      omega
    simp [hFull]

/-- Write again and again until nothing is left. A write of which nothing is taken
is a fault of the output. -/
def writeAll (bytes : List UInt8) (output : Output) : Option Fault × Output :=
  if bytes = [] then (none, output)
  else if output.accepted bytes = 0 then (some .outputFull, output)
  else writeAll (bytes.drop (output.accepted bytes)) (output.write bytes)
termination_by bytes.length
decreasing_by
  have hLength := List.length_pos_iff.mpr ‹bytes ≠ []›
  rw [List.length_drop]
  omega

/-- What a write does not take leaves no trace. -/
theorem write_take_accepted (bytes : List UInt8) :
    output.write (bytes.take (output.accepted bytes)) = output.write bytes := by
  obtain ⟨_ | room, taken⟩ := output
  · simp [accepted]
  · simp only [accepted, ← List.take_eq_take_min, write_some, List.length_take, List.take_take,
      Nat.min_self, ← Nat.sub_eq_sub_min]

theorem fits_take_accepted (bytes : List UInt8) :
    output.Fits (bytes.take (output.accepted bytes)) := by
  obtain ⟨_ | room, taken⟩ := output
  · exact fits_none _ _
  · simp only [fits_some, accepted, List.length_take]
    omega

/-- Writing on takes no more than the first write took, and is a fault exactly if
that did not take all. -/
theorem writeAll_eq (bytes : List UInt8) (output : Output) :
    writeAll bytes output =
      (if output.Fits bytes then none else some .outputFull, output.write bytes) := by
  fun_induction writeAll bytes output with
  | case1 output => rw [if_pos (fits_nil output), write_nil]
  | case2 bytes output hBytes hNothing =>
      have hFits : ¬ output.Fits bytes := by
        intro hFits
        exact hBytes (List.length_eq_zero_iff.mp (hFits.symm.trans hNothing))
      have hWrite := output.write_take_accepted bytes
      rw [hNothing, List.take_zero, write_nil] at hWrite
      rw [if_neg hFits, ← hWrite]
  | case3 bytes output hBytes hSome ih =>
      have hWrite := output.write_append (bytes.take (output.accepted bytes))
        (bytes.drop (output.accepted bytes))
      have hFits := output.fits_append (bytes.take (output.accepted bytes))
        (bytes.drop (output.accepted bytes))
      rw [List.take_append_drop, write_take_accepted] at hWrite hFits
      simp only [ih, ← hWrite, hFits, fits_take_accepted, true_and]

end Output

/-- A way to write: the fault it ends with, if any, and what becomes of the output. -/
abbrev Writing := Output → Option Fault × Output

namespace Writing

def done : Writing := fun output => (none, output)

def fail (fault : Fault) : Writing := fun output => (some fault, output)

/-- Go on behind a first writing unless it ended with a fault. -/
def andThen (first second : Writing) : Writing := fun output =>
  match first output with
  | (none, later) => second later
  | (some fault, later) => (some fault, later)

/-- Write for each of some items, up to the first fault. -/
def each {α : Type} (writing : α → Writing) : List α → Writing
  | [] => done
  | item :: items => (writing item).andThen (each writing items)

/-- What reaches an empty output, and the fault that the writer sees. -/
def deliver (writing : Writing) (room : Option Nat) : Delivery :=
  ⟨(writing ⟨room, []⟩).2.taken, (writing ⟨room, []⟩).1⟩

/-- The writing writes these bytes and then ends with this fault, if any, on any
output that takes all of the bytes. On any other it ends when that is full. -/
def Writes (writing : Writing) (whole : Delivery) : Prop :=
  ∀ output, writing output =
    (if output.Fits whole.written then whole.fault else some .outputFull,
      output.write whole.written)

theorem writes_done : done.Writes ⟨[], none⟩ := by
  intro output
  rw [if_pos output.fits_nil, Output.write_nil]
  rfl

/-- Nothing is written on account of a fault. -/
theorem writes_fail (fault : Fault) : (fail fault).Writes ⟨[], some fault⟩ := by
  intro output
  rw [if_pos output.fits_nil, Output.write_nil]
  rfl

/-- To write all of some bytes takes as many writes as the output makes of it, and fails
only if it gets full. -/
theorem writes_writeAll (bytes : List UInt8) : Writes (Output.writeAll bytes) ⟨bytes, none⟩ :=
  Output.writeAll_eq bytes

/-- A full output ends both writings, and its fault comes before that of the second. -/
theorem Writes.andThen {first second : Writing} {bytes : List UInt8} {whole : Delivery}
    (hFirst : first.Writes ⟨bytes, none⟩) (hSecond : second.Writes whole) :
    (first.andThen second).Writes ⟨bytes ++ whole.written, whole.fault⟩ := by
  intro output
  rw [Writing.andThen, hFirst output, Output.write_append]
  by_cases hFits : output.Fits bytes
  · have hBoth := (output.fits_append bytes whole.written).trans (and_iff_right hFits)
    rw [if_pos hFits]
    simp only [hSecond (output.write bytes), hBoth]
  · have hBoth : ¬ output.Fits (bytes ++ whole.written) := fun hBoth =>
      hFits ((output.fits_append _ _).mp hBoth).left
    rw [if_neg hFits, if_neg hBoth, output.write_write_of_not_fits _ _ hFits]

theorem writes_each {α : Type} {writing : α → Writing} {bytes : α → List UInt8}
    {items : List α} (h : ∀ item ∈ items, (writing item).Writes ⟨bytes item, none⟩) :
    (each writing items).Writes ⟨items.flatMap bytes, none⟩ := by
  induction items with
  | nil => exact writes_done
  | cons item items ih =>
      exact (h item List.mem_cons_self).andThen
        (ih fun later hLater => h later (List.mem_cons_of_mem _ hLater))

/-- An output without a limit takes everything, so only a fault of the writing itself is
seen. -/
theorem Writes.deliver_none {writing : Writing} {whole : Delivery} (h : writing.Writes whole) :
    writing.deliver none = whole := by
  rw [deliver, h]
  simp

end Writing

/-- What of a delivery reaches an output with room for a number of bytes in total:
the first bytes, and if those are not all, a fault of the output in place of any other. -/
def Delivery.cutOff (whole : Delivery) (room : Nat) : Delivery where
  written := whole.written.take room
  fault := if whole.written.length ≤ room then whole.fault else some .outputFull

/-- A limited output holds the first bytes of what is written, in however many pieces that
was done. -/
theorem Writing.Writes.deliver_some {writing : Writing} {whole : Delivery}
    (h : writing.Writes whole) (room : Nat) : writing.deliver (some room) = whole.cutOff room := by
  rw [deliver, h]
  simp [Delivery.cutOff]

/-- Pieces that are accepted as long as they fit are cut off where their bytes are. -/
theorem Transcript.deliverWithin_eq (transcript : Transcript) (room : Nat) :
    transcript.deliverWithin room = transcript.deliver.cutOff room := by
  obtain ⟨pieces, fault⟩ := transcript
  change deliverPieces fault room pieces = Delivery.cutOff ⟨pieces.flatMap Text.bytes, fault⟩ room
  induction pieces generalizing room with
  | nil => simp [deliverPieces, Delivery.cutOff]
  | cons piece pieces ih =>
      simp only [deliverPieces, ih, Delivery.cutOff, List.flatMap_cons, List.length_append,
        List.take_append]
      split
      · next hFits =>
          rw [List.take_of_length_le hFits]
          congr 1
          simp only [Nat.le_sub_iff_add_le' hFits]
      · next hCut =>
          have hFull : room - (Text.bytes piece).length = 0 := by omega
          rw [hFull, List.take_zero, List.append_nil, if_neg (by omega)]

end LetLang
