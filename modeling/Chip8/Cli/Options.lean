import Chip8.Cli.Numeral
import Chip8.Error

/-! # Command line options

A command has one free argument, its file, and options. An option is a switch or takes an argument.
It is given by its long name after two dashes or by its letter after one; letters may be joined, and
an argument may follow in the same word. After two dashes alone, all words are free.
-/

namespace Chip8.Cli

structure OptionSpec where
  letter : Char
  name : String
  /-- What stands for the argument in the help text. A switch has none. -/
  argument : Option String
  help : String

inductive UsageError
  | unrecognized (shown : String)
  | missingArgument (shown : String)
  | invalidArgument (shown : String) (cause : NumeralError)
  | takesNoArgument (shown : String)
  | unexpectedFree (text : String)
  | missingFree
deriving DecidableEq

def UsageError.message : UsageError → String
  | unrecognized shown => "unrecognized option `" ++ shown ++ "`"
  | missingArgument shown => "missing argument to option `" ++ shown ++ "`"
  | invalidArgument shown cause =>
    "invalid argument to option `" ++ shown ++ "`: " ++ cause.message
  | takesNoArgument shown => "option `" ++ shown ++ "` does not accept an argument"
  | unexpectedFree text => "unexpected free argument `" ++ text ++ "`"
  | missingFree => "missing required free argument"

/-- One thing that the words of a command line give. An option with an argument remembers how it
was written. -/
inductive Given
  | free (text : String)
  | switch (name : String)
  | value (name shown text : String)
deriving DecidableEq

/-- What a word of the command line begins. -/
inductive Argument
  | free
  | endOfOptions
  | long (name : String) (argument : Option String)
  | letters (cs : List Char)

def Argument.ofString (text : String) : Argument :=
  match text.toList with
  | ['-', '-'] => .endOfOptions
  | '-' :: '-' :: cs =>
    let name := String.ofList (cs.takeWhile (· ≠ '='))
    match cs.dropWhile (· ≠ '=') with
    | [] => .long name none
    | _ :: argument => .long name (some (String.ofList argument))
  | ['-'] => .free
  | '-' :: cs => .letters cs
  | _ => .free

theorem Argument.ofString_of_head? {text : String} (h : text.toList.head? ≠ some '-') :
    Argument.ofString text = .free := by
  unfold ofString
  split <;> simp_all

inductive LettersEnd
  | complete
  | wants (spec : OptionSpec)
  | failed (error : UsageError)

def shownLetter (c : Char) : String := String.ofList ['-', c]

/-- The options of joined letters. The first that takes an argument takes the other letters, or if
there are none the next word. -/
def scanLetters (specs : List OptionSpec) : List Char → List Given × LettersEnd
  | [] => ([], .complete)
  | c :: cs =>
    match specs.find? (·.letter = c) with
    | none => ([], .failed (.unrecognized (shownLetter c)))
    | some spec =>
      if spec.argument.isNone then
        let (given, ending) := scanLetters specs cs
        (.switch spec.name :: given, ending)
      else if cs = [] then ([], .wants spec)
      else ([.value spec.name (shownLetter c) (String.ofList cs)], .complete)

/-- What the words of a command line give, up to the first that cannot be. -/
def scan (specs : List OptionSpec) : List String → List Given × Option UsageError
  | [] => ([], none)
  | text :: rest =>
    let goOn (given : List Given) (more : List Given × Option UsageError) :=
      (given ++ more.1, more.2)
    match Argument.ofString text with
    | .free => goOn [.free text] (scan specs rest)
    | .endOfOptions => (rest.map .free, none)
    | .long name argument =>
      let shown := "--" ++ name
      match specs.find? (·.name = name) with
      | none => ([], some (.unrecognized shown))
      | some spec =>
        match spec.argument, argument with
        | none, none => goOn [.switch name] (scan specs rest)
        | none, some _ => ([], some (.takesNoArgument shown))
        | some _, some argument => goOn [.value name shown argument] (scan specs rest)
        | some _, none =>
          match rest with
          | [] => ([], some (.missingArgument shown))
          | argument :: rest => goOn [.value name shown argument] (scan specs rest)
    | .letters cs =>
      let (given, ending) := scanLetters specs cs
      match ending with
      | .complete => goOn given (scan specs rest)
      | .failed error => (given, some error)
      | .wants spec =>
        match rest with
        | [] => (given, some (.missingArgument (shownLetter spec.letter)))
        | argument :: rest =>
          goOn (given ++ [.value spec.name (shownLetter spec.letter) argument]) (scan specs rest)

theorem scan_free (specs : List OptionSpec) {text : String} (h : Argument.ofString text = .free)
    (rest : List String) :
    scan specs (text :: rest) = (.free text :: (scan specs rest).1, (scan specs rest).2) := by
  simp only [scan, h, List.singleton_append]

/-- An option by its long name, with its argument in the next word. -/
theorem scan_long {specs : List OptionSpec} {spec : OptionSpec} (name : String)
    {text shown what : String} (htext : Argument.ofString text = .long name none)
    (hshown : "--" ++ name = shown) (hspec : specs.find? (·.name = name) = some spec)
    (hargument : spec.argument = some what) (argument : String) (rest : List String) :
    scan specs (text :: argument :: rest) =
      (.value name shown argument :: (scan specs rest).1, (scan specs rest).2) := by
  simp only [scan, htext, hspec, hargument, hshown, List.singleton_append]

/-- A switch by its long name. -/
theorem scan_switch {specs : List OptionSpec} {spec : OptionSpec} {name text : String}
    (htext : Argument.ofString text = .long name none)
    (hspec : specs.find? (·.name = name) = some spec) (hargument : spec.argument = none)
    (rest : List String) :
    scan specs (text :: rest) = (.switch name :: (scan specs rest).1, (scan specs rest).2) := by
  simp only [scan, htext, hspec, hargument, List.singleton_append]

def argumentNumber (radix max : Nat) (shown text : String) : Except UsageError Nat :=
  match readNumeral radix max text with
  | .ok n => .ok n
  | .error cause => .error (.invalidArgument shown cause)

/-- The greatest number that an option for a size or a count takes. -/
def sizeMax : Nat := UInt64.size - 1

/-! ## Help -/

namespace OptionSpec

def heading (spec : OptionSpec) : String :=
  "  -" ++ String.singleton spec.letter ++ ", --" ++ spec.name
    ++ (match spec.argument with | some argument => " " ++ argument | none => "")

end OptionSpec

/-! ## Commands -/

structure CommandResult where
  code : Nat
  out : String
  err : String
deriving DecidableEq

/-- How a command ends whose line cannot be read. -/
def CommandResult.ofUsageError (self : String) (error : UsageError) : CommandResult :=
  ⟨2, "", self ++ ": " ++ error.message ++ "\n"⟩

/-- How a command ends that fails before it has begun its work. -/
def CommandResult.ofError (error : Error) : CommandResult :=
  ⟨1, "", "Error: " ++ error.describe ++ "\n"⟩

/-- A command takes a file and has settings, which its options change. One of its switches asks for
help. -/
structure Command (α : Type) where
  fileHelp : String
  options : List OptionSpec
  defaults : α
  takeSwitch : String → α → α
  takeValue : String → String → String → α → Except UsageError α

structure Gathered (α : Type) where
  file : Option String
  help : Bool
  settings : α

namespace Command

variable {α : Type}

def take (command : Command α) (gathered : Gathered α) : Given → Except UsageError (Gathered α)
  | .free text =>
    match gathered.file with
    | none => .ok { gathered with file := some text }
    | some _ => .error (.unexpectedFree text)
  | .switch name =>
    if name = "help" then .ok { gathered with help := true }
    else .ok { gathered with settings := command.takeSwitch name gathered.settings }
  | .value name shown text => do
    return { gathered with settings := ← command.takeValue name shown text gathered.settings }

/-- Takes in what a command line gives, one thing after the other, up to the first fault. -/
def gather (command : Command α) (args : List String) : Except UsageError (Gathered α) := do
  let (given, fault) := scan command.options args
  let gathered ← given.foldlM command.take ⟨none, false, command.defaults⟩
  match fault with
  | none => return gathered
  | some error => throw error

/-- The help text. Its two columns are two blanks apart. -/
def usage (command : Command α) (self : String) : String :=
  let width := (command.options.map (·.heading.length)).foldl max 0 + 2
  let row (heading help : String) : String :=
    heading ++ String.ofList (List.replicate (width - heading.length) ' ') ++ help ++ "\n"
  "Usage: " ++ self ++ " [OPTIONS]\n\nPositional arguments:\n" ++ row "  file" command.fileHelp
    ++ "\nOptional arguments:\n"
    ++ String.join (command.options.map fun option => row option.heading option.help)

/-- The file and the settings that a command line gives, or how the command ends without them. -/
def read (command : Command α) (self : String) (args : List String) :
    Except CommandResult (String × α) :=
  match command.gather args with
  | .error error => .error (.ofUsageError self error)
  | .ok gathered =>
    if gathered.help then .error ⟨0, "", command.usage self⟩
    else
      match gathered.file with
      | none => .error (.ofUsageError self .missingFree)
      | some file => .ok (file, gathered.settings)

end Command

end Chip8.Cli
