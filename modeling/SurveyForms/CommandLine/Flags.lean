import SurveyForms.Config.Scalar
import SurveyForms.Text.Quoted

/-! Flags of a command line. A flag has a long name and perhaps a letter; it takes a value or is
a switch. Flags and words may be mixed, and of a flag that is given twice the later one counts. -/
namespace SurveyForms.CommandLine

structure Flag where
  name : String
  letter : Option Char
  isSwitch : Bool
  deriving DecidableEq, Repr

def Flag.label (f : Flag) : String :=
  match f.letter with
  | some c => "-" ++ c.toString ++ ", --" ++ f.name
  | none => "--" ++ f.name

inductive FlagError where
  | malformed (argument : String)
  | unknownName (name : String)
  /-- A letter that no flag has, and the letters from it on. -/
  | unknownLetter (c : Char) (letters : List Char)
  | missingValue (name : String)
  | missingLetterValue (c : Char) (letters : List Char)
  /-- A switch that is neither on nor off. -/
  | badSwitch (flag : Flag) (value : String)
  /-- Help is wanted where no flag stands for it. -/
  | helpWanted
  deriving DecidableEq, Repr

namespace FlagError

/-- A letter in single quotes. Of a letter beyond the basic range only the first byte is
shown. -/
def quoteLetter (c : Char) : String :=
  let first := Char.ofNat ((String.utf8EncodeChar c).headD 0).toNat
  let shown := match first with
    | '\'' => ['\\', '\'']
    | '"' => ['"']
    | other => Text.quoteChar other
  String.ofList ('\'' :: shown ++ ['\''])

def message : FlagError → String
  | .malformed argument => "bad flag syntax: " ++ argument
  | .unknownName name => "unknown flag: --" ++ name
  | .unknownLetter c letters =>
    "unknown shorthand flag: " ++ quoteLetter c ++ " in -" ++ String.ofList letters
  | .missingValue name => "flag needs an argument: --" ++ name
  | .missingLetterValue c letters =>
    "flag needs an argument: " ++ quoteLetter c ++ " in -" ++ String.ofList letters
  | .badSwitch flag value =>
    "invalid argument " ++ Text.quote value ++ " for " ++ Text.quote flag.label ++
      " flag: strconv.ParseBool: parsing " ++ Text.quote value ++ ": invalid syntax"
  | .helpWanted => "pflag: help requested"

end FlagError

/-- A flag that was given, by its long name, with its value. -/
abbrev Setting := String × String

/-- A command line taken apart. Settings stand in the order in which they were given. -/
structure Arguments where
  settings : List Setting
  words : List String
  deriving DecidableEq, Repr

namespace Arguments

def value? (a : Arguments) (name : String) : Option String :=
  (a.settings.reverse.find? (·.1 = name)).map (·.2)

def isOn (a : Arguments) (name : String) : Bool :=
  (a.value? name).bind Config.Scalar.switchWord? = some true

end Arguments

inductive Reading where
  | word
  /-- All arguments behind it are words. -/
  | stop
  | complete (settings : List Setting)
  /-- The last flag wants the next argument as its value; the error is for the case that there
  is none. -/
  | open (settings : List Setting) (flag : Flag) (missing : FlagError)

def set (flag : Flag) (value : String) : Except FlagError Setting :=
  if flag.isSwitch && (Config.Scalar.switchWord? value).isNone then .error (.badSwitch flag value)
  else .ok (flag.name, value)

def switchedOn : String := "true"

def readLong (known : List Flag) (text : List Char) : Except FlagError Reading :=
  if text.isEmpty || text.head? == some '-' || text.head? == some '=' then
    .error (.malformed ("--" ++ String.ofList text))
  else
    let name := String.ofList (text.takeWhile (· ≠ '='))
    match known.find? (·.name = name) with
    | none => .error (if name = "help" then .helpWanted else .unknownName name)
    | some flag =>
      match text.dropWhile (· ≠ '=') with
      | _ :: value => return .complete [← set flag (String.ofList value)]
      | [] =>
        if flag.isSwitch then return .complete [← set flag switchedOn]
        else .ok (.open [] flag (.missingValue name))

/-- Letters that begin like this are for a test runner and mean nothing here. -/
def testLetters : List Char := "test.".toList

/-- Reads the letters behind one dash. A letter that takes a value takes all that follows. -/
def readLetters (known : List Flag) : List Char → Except FlagError Reading
  | [] => .ok (.complete [])
  | c :: rest =>
    if testLetters.isPrefixOf (c :: rest) then .ok (.complete [])
    else match known.find? (·.letter = some c) with
      | none => .error (if c = 'h' then .helpWanted else .unknownLetter c (c :: rest))
      | some flag =>
        match rest with
        | '=' :: v :: value => return .complete [← set flag (String.ofList (v :: value))]
        | _ =>
          if flag.isSwitch then do
            let first ← set flag switchedOn
            match ← readLetters known rest with
            | .complete settings => return .complete (first :: settings)
            | .open settings flag missing => return .open (first :: settings) flag missing
            | other => return other
          else if rest.isEmpty then .ok (.open [] flag (.missingLetterValue c [c]))
          else return .complete [← set flag (String.ofList rest)]

def read (known : List Flag) (argument : String) : Except FlagError Reading :=
  match argument.toList with
  | ['-', '-'] => .ok .stop
  | '-' :: '-' :: text => readLong known text
  | '-' :: c :: rest => readLetters known (c :: rest)
  | _ => .ok .word

/-- Takes a command line apart. The error is the first from the left. -/
def parse (known : List Flag) : List String → Except FlagError Arguments
  | [] => .ok ⟨[], []⟩
  | argument :: rest => do
    match ← read known argument with
    | .word =>
      let a ← parse known rest
      return { a with words := argument :: a.words }
    | .stop => return ⟨[], rest⟩
    | .complete settings =>
      let a ← parse known rest
      return { a with settings := settings ++ a.settings }
    | .open settings flag missing =>
      match rest with
      | [] => .error missing
      | value :: rest =>
        let a ← parse known rest
        return { a with settings := settings ++ (flag.name, value) :: a.settings }

end SurveyForms.CommandLine
