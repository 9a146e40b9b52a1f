import LetLang.Command

/-! The executable: streams and files around the command. -/
namespace LetLang.Main

/-- The next line with its line feed, empty at the end of the input. Bytes are
taken one at a time, so that a line is answered as soon as it is complete. -/
partial def nextLine (input : IO.FS.Stream) (before : List UInt8) : IO (List UInt8) := do
  match (← input.read 1).data.toList with
  | [] => return before.reverse
  | byte :: _ =>
      if byte == Text.Line.lineFeed then return (byte :: before).reverse
      else nextLine input (byte :: before)

/-- Prompt, read a line and answer it, until the input ends. -/
partial def converse (config : Session.Config) (input output : IO.FS.Stream) : IO UInt32 := do
  output.putStr (Session.promptText config)
  output.flush
  match Text.Line.split (← nextLine input []) with
  | [] => return 0
  | line :: _ =>
      match Text.ofBytes? line with
      | none =>
          (← IO.getStderr).putStr (Command.faultReport .invalidText)
          return 1
      | some text =>
          for piece in Session.answer config text do
            output.putStr piece
          converse config input output

/-- Write what a run left behind. -/
def report (outcome : Command.Outcome) : IO UInt32 := do
  (← IO.getStdout).putStr outcome.stdout
  (← IO.getStderr).putStr outcome.stderr
  return outcome.exitCode.toUInt32

/-- The fault with this number, which the system gives with either sign. -/
def fileFaultWithCode? (code : UInt32) : Option FileFault :=
  [FileFault.notFound, .notAFolder, .isAFolder, .nameTooLong].find? fun fault =>
    code == fault.code.toUInt32 || code == 0 - fault.code.toUInt32

/-- Why a file cannot be read, if the system gives one of the known reasons. -/
def fileFault? : IO.Error → Option FileFault
  | .noFileOrDirectory .. => some .notFound
  | .inappropriateType _ code _ => fileFaultWithCode? code
  | .invalidArgument _ code _ => fileFaultWithCode? code
  | _ => none

/-- Parse the file with this name. -/
def processPath (name : String) : IO UInt32 := do
  match ← (IO.FS.readBinFile name).toBaseIO with
  | .ok content => report (Command.processFile name (.ok content.data.toList))
  | .error error =>
      match fileFault? error with
      | some fault => report (Command.processFile name (.error fault))
      | none => report ⟨1, "", "Error: " ++ toString error ++ "\n"⟩

end LetLang.Main

open LetLang in
def main (arguments : List String) : IO UInt32 := do
  match Command.Request.read arguments with
  | .error fault =>
      (← IO.getStderr).putStr ("error: " ++ fault.message ++ "\n")
      return Command.UsageError.exitCode.toUInt32
  | .ok (.process options) =>
      match options.file? with
      | some name => Main.processPath name
      | none =>
          let input ← IO.getStdin
          let output ← IO.getStdout
          let config := options.config (← output.isTty)
          if ← input.isTty then
            output.putStr (Command.greeting config.mode)
          Main.converse config input output
  | .ok request => Main.report (request.perform [] {})
