import LetLang.Command.Arguments
import LetLang.FileTree

/-! The command: one source file parsed and printed, or a session on the
standard input. All of it is a function of the arguments, the input and the
files that can be read; only the streams themselves are left to the caller. -/
namespace LetLang.Command

/-- What a run leaves behind: its exit code and what it wrote. -/
structure Outcome where
  exitCode : Nat
  stdout : String
  stderr : String
deriving DecidableEq

/-- A run that ends well. -/
def Outcome.success (stdout : String) : Outcome := ⟨0, stdout, ""⟩

/-- Exit code of a command line that makes no sense. -/
def UsageError.exitCode : Nat := 2

def versionLine : String := "sprig 0.1.0\n"

def helpText : String :=
  "Tokenize and parse Sprig source.\n\n" ++
  "Usage: sprig [OPTIONS] [FILE]\n\n" ++
  "Arguments:\n" ++
  "  [FILE]  Source file to parse once; starts the interactive loop when omitted\n\n" ++
  "Options:\n" ++
  "  -m, --mode <MODE>      What the loop prints for each line: tokens or ast\n" ++
  "      --prompt <PROMPT>  Prompt written before each line is read\n" ++
  "      --no-color         Never colour the output\n" ++
  "  -h, --help             Print help\n" ++
  "  -V, --version          Print version\n"

/-- The line that greets a person at a terminal. -/
def greeting (mode : Session.Mode) : String := "Sprig 0.1.0 (" ++ mode.name ++ " mode)\n"

/-- How a fault of the streams is reported. -/
def faultReport (fault : Fault) : String :=
  "Error: Error \x7b kind: " ++ fault.kind ++ ", message: " ++
    Text.Quoted.encode fault.message ++ " \x7d\n"

/-- How a file that cannot be read is reported. -/
def fileFaultReport (fault : FileFault) : String :=
  "Error: Os \x7b code: " ++ toString fault.code ++ ", kind: " ++ fault.kind ++ ", message: " ++
    Text.Quoted.encode fault.message ++ " \x7d\n"

def diagnosticsReport (name : String) (diagnostics : List Diagnostic) : String :=
  "Parser errors in " ++ name ++ ":\n" ++
    String.join (diagnostics.map fun diagnostic => "\t" ++ diagnostic.message ++ "\n")

/-- Parse a whole source text. Its program is printed only if nothing is
wrong with it. -/
def processSource (name : String) (source : String) : Outcome :=
  match Program.parse source with
  | (program, []) => .success (program.render ++ "\n")
  | (_, diagnostics) => ⟨1, "", diagnosticsReport name diagnostics⟩

/-- Parse a file, given what reading it gave. -/
def processFile (name : String) : Except FileFault (List UInt8) → Outcome
  | .error fault => ⟨1, "", fileFaultReport fault⟩
  | .ok content =>
      match Text.ofBytes? content with
      | none => ⟨1, "", faultReport .invalidText⟩
      | some source => processSource name source

/-- Run a session on the whole standard input. What was written before a fault stays. -/
def processInput (config : Session.Config) (input : List UInt8) : Outcome :=
  let transcript := Session.run config input
  match transcript.fault with
  | none => .success transcript.text
  | some fault => ⟨1, transcript.text, faultReport fault⟩

/-- Do what a request asks for. A file takes the place of the session, and
the session's options then have no effect. -/
def Request.perform (input : List UInt8) (tree : FileTree) : Request → Outcome
  | .version => .success versionLine
  | .help => .success helpText
  | .process options =>
      match options.file? with
      | some name => processFile name (tree.read name)
      | none => processInput (options.config false) input

/-- Run a command line with no terminal around it. -/
def run (arguments : List String) (input : List UInt8) (tree : FileTree) :
    Except UsageError Outcome :=
  (Request.read arguments).map (Request.perform input tree)

end LetLang.Command
