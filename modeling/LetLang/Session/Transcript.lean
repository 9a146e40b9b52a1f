import LetLang.Text.Bytes

/-! Transcripts: what a session writes, piece by piece, and how it ends. An
output that accepts a limited number of bytes takes pieces as long as they
fit and the beginning of the first that does not, and then refuses. -/
namespace LetLang

/-- What can go wrong between a session and its streams. -/
inductive Fault where
  /-- The input is not valid UTF-8. -/
  | invalidText
  /-- The output accepts no more bytes. -/
  | outputFull
deriving DecidableEq

namespace Fault

def kind : Fault → String
  | invalidText => "InvalidData"
  | outputFull => "WriteZero"

def message : Fault → String
  | invalidText => "stream did not contain valid UTF-8"
  | outputFull => "failed to write whole buffer"

end Fault

/-- The pieces written in order, and the fault of the input that ended the
writing, if one did. -/
structure Transcript where
  pieces : List String
  fault : Option Fault
deriving DecidableEq

/-- What reached an output: the bytes it took, and the fault that the writer saw. -/
structure Delivery where
  written : List UInt8
  fault : Option Fault
deriving DecidableEq

namespace Transcript

/-- Everything that is written, as one text. -/
def text (transcript : Transcript) : String := String.join transcript.pieces

/-- Delivery to an output that accepts everything. -/
def deliver (transcript : Transcript) : Delivery :=
  ⟨transcript.pieces.flatMap Text.bytes, transcript.fault⟩

/-- Delivery of some pieces, followed by `fault`, to an output with room for a
number of bytes. An empty piece always fits. -/
def deliverPieces (fault : Option Fault) : (room : Nat) → List String → Delivery
  | _, [] => ⟨[], fault⟩
  | room, piece :: pieces =>
      let bytes := Text.bytes piece
      if bytes.length ≤ room then
        let later := deliverPieces fault (room - bytes.length) pieces
        ⟨bytes ++ later.written, later.fault⟩
      else ⟨bytes.take room, some .outputFull⟩

/-- Delivery to an output with room for a number of bytes in total. -/
def deliverWithin (transcript : Transcript) (room : Nat) : Delivery :=
  deliverPieces transcript.fault room transcript.pieces

end Transcript

end LetLang
