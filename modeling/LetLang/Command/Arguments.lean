import LetLang.Session

/-! Command-line arguments, read from left to right. The first thing that
decides the outcome wins: a fault in the arguments, or a request for the
version or for help. Arguments behind it are not looked at. -/
namespace LetLang.Command

/-- Options that take a value. -/
inductive ValuedOption where
  | mode | prompt
deriving DecidableEq

/-- Options that take none. -/
inductive Flag where
  | noColour | version | help
deriving DecidableEq

def ValuedOption.name : ValuedOption → String
  | mode => "--mode"
  | prompt => "--prompt"

def Flag.name : Flag → String
  | noColour => "--no-color"
  | version => "--version"
  | help => "--help"

/-- Why the arguments make no sense. -/
inductive UsageError where
  | unknownOption (argument : String)
  | missingValue (option : ValuedOption)
  | needlessValue (flag : Flag)
  | repeatedOption (name : String)
  | badMode (value : String)
  | emptyFile
  | extraFile (argument : String)
deriving DecidableEq

namespace UsageError

def message : UsageError → String
  | unknownOption argument => "unexpected argument '" ++ argument ++ "'"
  | missingValue option => "a value is required for '" ++ option.name ++ "'"
  | needlessValue flag => "'" ++ flag.name ++ "' takes no value"
  | repeatedOption name => "'" ++ name ++ "' cannot be used multiple times"
  | badMode value => "invalid mode '" ++ value ++ "': use tokens or ast"
  | emptyFile => "a file name cannot be empty"
  | extraFile argument => "unexpected second file '" ++ argument ++ "'"

end UsageError

/-- What one argument is, judged by itself. A value attached to an option
belongs to the argument. -/
inductive Argument where
  /-- From here on every argument is a file. -/
  | separator
  | valued (option : ValuedOption) (attached? : Option String)
  | flag (flag : Flag) (attached? : Option String)
  | unknown
  | file
deriving DecidableEq

namespace Argument

/-- A long option by its full name, with the value attached behind `=`, if any. -/
def ofLong (body : List Char) : Argument :=
  let attached? : Option String :=
    match body.dropWhile (· != '=') with
    | [] => none
    | _ :: value => some (String.ofList value)
  match String.ofList (body.takeWhile (· != '=')) with
  | "mode" => valued .mode attached?
  | "prompt" => valued .prompt attached?
  | "no-color" => flag .noColour attached?
  | "version" => flag .version attached?
  | "help" => flag .help attached?
  | _ => unknown

/-- A short option by its letter. What follows the letter is the value of an
option that takes one, behind an optional `=`. The two flags with a letter
decide the outcome, so what follows them is not looked at. -/
def ofShort : List Char → Argument
  | ['m'] => valued .mode none
  | 'm' :: '=' :: value => valued .mode (some (String.ofList value))
  | 'm' :: value => valued .mode (some (String.ofList value))
  | 'V' :: _ => flag .version none
  | 'h' :: _ => flag .help none
  | _ => unknown

/-- A lone hyphen, and anything that does not start with one, is a file. -/
def ofString (argument : String) : Argument :=
  match argument.toList with
  | ['-', '-'] => separator
  | '-' :: '-' :: body => ofLong body
  | '-' :: letter :: body => ofShort (letter :: body)
  | _ => file

end Argument

/-- Options given so far; an absent one takes its default later. -/
structure Options where
  file? : Option String := none
  mode? : Option Session.Mode := none
  prompt? : Option String := none
  noColour : Bool := false
deriving DecidableEq

namespace Options

/-- Give an option its value, once. Any text is a prompt, also the empty one;
a mode must be named exactly. -/
def setValued (options : Options) (option : ValuedOption) (value : String) :
    Except UsageError Options :=
  match option with
  | .mode =>
      if options.mode?.isSome then .error (.repeatedOption option.name)
      else
        match Session.Mode.ofName? value with
        | some mode => .ok { options with mode? := some mode }
        | none => .error (.badMode value)
  | .prompt =>
      if options.prompt?.isSome then .error (.repeatedOption option.name)
      else .ok { options with prompt? := some value }

def setNoColour (options : Options) : Except UsageError Options :=
  if options.noColour then .error (.repeatedOption Flag.noColour.name)
  else .ok { options with noColour := true }

/-- There is at most one file, and its name is not empty. -/
def setFile (options : Options) (argument : String) : Except UsageError Options :=
  if options.file?.isSome then .error (.extraFile argument)
  else if argument = "" then .error .emptyFile
  else .ok { options with file? := some argument }

/-- The session that the options ask for. It is in colour only if the output
is a terminal and the options allow it. -/
def config (options : Options) (terminal : Bool) : Session.Config :=
  let defaults : Session.Config := {}
  { prompt := options.prompt?.getD defaults.prompt
    mode := options.mode?.getD defaults.mode
    colour := terminal && !options.noColour }

end Options

/-- What a command line asks for. -/
inductive Request where
  | version
  | help
  | process (options : Options)
deriving DecidableEq

/-- Where a value is expected, an argument with a hyphen and more is an
option instead. -/
def looksLikeOption (argument : String) : Bool :=
  match argument.toList with
  | '-' :: _ :: _ => true
  | _ => false

/-- Arguments behind the separator are files, whatever they look like. -/
def readFiles (options : Options) : List String → Except UsageError Request
  | [] => .ok (.process options)
  | argument :: arguments =>
      match options.setFile argument with
      | .error fault => .error fault
      | .ok updated => readFiles updated arguments

/-- Read arguments behind those that gave `options`. -/
def readArguments (options : Options) : List String → Except UsageError Request
  | [] => .ok (.process options)
  | argument :: arguments =>
      match Argument.ofString argument with
      | .separator => readFiles options arguments
      | .unknown => .error (.unknownOption argument)
      | .flag flag (some _) => .error (.needlessValue flag)
      | .flag .version none => .ok .version
      | .flag .help none => .ok .help
      | .flag .noColour none =>
          match options.setNoColour with
          | .error fault => .error fault
          | .ok updated => readArguments updated arguments
      | .file =>
          match options.setFile argument with
          | .error fault => .error fault
          | .ok updated => readArguments updated arguments
      | .valued option (some value) =>
          match options.setValued option value with
          | .error fault => .error fault
          | .ok updated => readArguments updated arguments
      | .valued option none =>
          match arguments with
          | [] => .error (.missingValue option)
          | value :: later =>
              if looksLikeOption value then .error (.missingValue option)
              else
                match options.setValued option value with
                | .error fault => .error fault
                | .ok updated => readArguments updated later

/-- Read a whole command line. -/
def Request.read (arguments : List String) : Except UsageError Request :=
  readArguments {} arguments

end LetLang.Command
